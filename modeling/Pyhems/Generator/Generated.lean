import Pyhems.Generator.Coordinates

/-! What holds of the definitions that are built from the MRA: the entities of a class are separate, each is named
after its coordinates, and every temporal one has states that its codec can tell apart. -/
namespace Pyhems.Generator
open Library Codec Fallible
open Get (Epc)

/-! ### One entity -/

def entityId (classCode : Nat) (epc : Epc) (manufacturerCode : Option Nat) (byteOffset : Nat) : String :=
  s!"class_{hexLower 4 classCode}_epc_{hexLower 2 epc}" ++
    (manufacturerCode.elim "" fun code => s!"_{hexLower 6 code}") ++
    (if byteOffset = 0 then "" else s!"_{hexLower 2 byteOffset}")

/-- What holds of every entity of a class. -/
structure Emitted (classCode : Nat) (entity : EntityDefinition) : Prop where
  id : entity.id = entityId classCode entity.epc entity.manufacturerCode entity.byteOffset
  temporal : ∀ temporal, entity.temporal = some temporal →
    entity.byteOffset = 0 ∧ (TemporalCodec.mk temporal entity.enumValues).Distinct

theorem entityId_zero (classCode : Nat) (epc : Epc) :
    entityId classCode epc none 0 = s!"class_{hexLower 4 classCode}_epc_{hexLower 2 epc}" := by
  rw [entityId,Option.elim_none,if_pos rfl,String.append_empty,String.append_empty]

theorem emitted_entityOf (classCode : Nat) (prop : MraProperty) (enumValues : List EnumValue) :
    Emitted classCode (entityOf classCode prop enumValues) where
  id := (entityId_zero classCode prop.epc).symm
  temporal _ h := by cases h

theorem emitted_temporalEntityOf {classCode : Nat} {prop : MraProperty} {temporal : TemporalDefinition}
    {states : List EnumValue} (h : (TemporalCodec.mk temporal states).Distinct) :
    Emitted classCode (temporalEntityOf classCode prop temporal states) where
  id := (entityId_zero classCode prop.epc).symm
  temporal _ heq := by
    cases heq
    exact ⟨rfl,h⟩

theorem emitted_fieldEntity (classCode : Nat) (epc : Epc) (prop : PropertyData) (field : Property Spec)
    (number : Spec) (format : String) (coefficientEpcs : List Epc) (byteOffset : Nat) :
    Emitted classCode (fieldEntity classCode epc prop field number format coefficientEpcs byteOffset) where
  id := by
    by_cases hzero : byteOffset = 0
    · subst hzero
      exact (entityId_zero classCode epc).symm
    · simp only [fieldEntity,entityId,if_neg hzero,Option.elim_none,String.append_empty,String.append_assoc]
  temporal _ h := by cases h

/-! ### The properties of a class -/

def Built.definitions (built : Built) : List EntityDefinition := built.entities.map BuildEntity.toEntityDefinition

/-- What becomes of a property. -/
structure FromProperty (classCode : Nat) (epc : Epc) (entities : List EntityDefinition) : Prop where
  ofProperty : OfProperty epc entities
  emitted : ∀ entity ∈ entities, Emitted classCode entity

theorem fromProperty_nil (classCode : Nat) (epc : Epc) : FromProperty classCode epc [] where
  ofProperty := ofProperty_nil epc
  emitted := List.forall_mem_nil _

namespace Sources
variable {sources : Sources} {prop : MraEntry} {built : Built}

theorem fromProperty_temporal {classCode : Nat} {entity : EntityDefinition} {used : List (Nat × Epc)}
    (h : sources.temporalEntity classCode prop.toPropertyData = .ok (some entity,used)) :
    ∃ epc, hexInt prop.epc = .ok epc ∧ FromProperty classCode epc [entity] := by
  obtain ⟨parsed,hparsed,h⟩ := bind_eq_ok.mp h
  obtain ⟨temporal,states,rfl,hdistinct⟩ := temporal_of_build h
  exact ⟨parsed.epc,epc_of_parse hparsed,ofProperty_singleton rfl rfl,
    List.forall_mem_singleton.mpr (emitted_temporalEntityOf hdistinct)⟩

theorem fromProperty_flat {classCode : Nat} {parsed : MraProperty} {entity : EntityDefinition}
    (h : buildEntityFromProperty classCode parsed = .ok (some entity)) :
    FromProperty classCode parsed.epc [entity] := by
  obtain ⟨enumValues,rfl⟩ := entity_of_property h
  exact ⟨ofProperty_singleton rfl rfl,List.forall_mem_singleton.mpr (emitted_entityOf classCode parsed enumValues)⟩

theorem fromProperty_object {classCode : Nat} {epc : Epc} {data : PropertyData} {definitions : Definitions}
    {atomicPairedEpcs : List Epc} {entities : List EntityDefinition}
    (h : buildEntitiesFromObjectProperty classCode epc data definitions atomicPairedEpcs = .ok (some entities)) :
    FromProperty classCode epc entities := by
  obtain ⟨hproperty,hfields⟩ := entities_of_object h
  refine ⟨hproperty,?_⟩
  intro entity hentity
  obtain ⟨field,number,format,coefficientEpcs,byteOffset,rfl⟩ := hfields entity hentity
  exact emitted_fieldEntity ..

theorem commonProperty_spec (h : sources.commonProperty prop = .ok built) :
    ∃ epc, hexInt prop.epc = .ok epc ∧ FromProperty 0 epc built.definitions := by
  obtain ⟨parsed,hparsed,h⟩ := bind_eq_ok.mp h
  obtain ⟨⟨entity,used⟩,htemporal,h⟩ := bind_eq_ok.mp h
  cases entity with
  | some entity =>
    cases h
    exact fromProperty_temporal htemporal
  | none =>
    refine ⟨parsed.epc,epc_of_parse hparsed,?_⟩
    obtain ⟨alternative,_,h⟩ := bind_eq_ok.mp h
    split at h
    · cases h
      exact fromProperty_nil 0 parsed.epc
    · obtain ⟨entity,hentity,h⟩ := bind_eq_ok.mp h
      cases h
      cases entity with
      | none => exact fromProperty_nil 0 parsed.epc
      | some entity => exact fromProperty_flat hentity

theorem deviceProperty_spec {classCode : Nat} {common atomicPairedEpcs : List Epc}
    (h : sources.deviceProperty classCode common atomicPairedEpcs prop = .ok built) :
    ∃ epc, hexInt prop.epc = .ok epc ∧ FromProperty classCode epc built.definitions := by
  obtain ⟨epc,hepc,hbecomes⟩ := becomes_of_deviceProperty h
  cases hbecomes with
  | temporal htemporal => exact fromProperty_temporal htemporal
  | nothing | tree => exact ⟨epc,hepc,fromProperty_nil classCode epc⟩
  | object _ _ hentities =>
    refine ⟨epc,hepc,?_⟩
    have hforget : BuildEntity.toEntityDefinition ∘ applyRole sources.roles classCode = id := rfl
    rw [Built.definitions,List.map_map,hforget,List.map_id]
    exact fromProperty_object hentities
  | flat _ _ hparsed hentity => exact ⟨_,epc_of_parse hparsed,fromProperty_flat hentity⟩

end Sources

/-! ### Classes -/

/-- The entities of properties that are different. -/
structure Apart (classCode : Nat) (epcs : List Epc) (entities : List EntityDefinition) : Prop where
  separate : Separate entities
  scope : ∀ entity ∈ entities, entity.epc ∈ epcs ∧ entity.manufacturerCode = none
  emitted : ∀ entity ∈ entities, Emitted classCode entity

theorem apart_flatMap {classCode : Nat} {epcs : List Epc} {groups : List (List EntityDefinition)}
    (hnodup : epcs.Nodup) (h : List.Forall₂ (FromProperty classCode) epcs groups) :
    Apart classCode epcs groups.flatten := by
  induction h with
  | nil => exact ⟨.nil,List.forall_mem_nil _,List.forall_mem_nil _⟩
  | @cons epc entities epcs groups hfirst _ ih =>
    obtain ⟨hnew,hrest⟩ := List.nodup_cons.mp hnodup
    have hlater := ih hrest
    rw [List.flatten_cons]
    refine ⟨?_,?_,?_⟩
    · refine List.pairwise_append.mpr ⟨hfirst.ofProperty.offsets.imp fun hne hclash => hne hclash.2.1,hlater.separate,?_⟩
      intro a ha b hb hclash
      have hepc := (hfirst.ofProperty.scope a ha).1
      have hmem := (hlater.scope b hb).1
      rw [← hclash.1,hepc] at hmem
      exact hnew hmem
    · intro entity hentity
      obtain hentity | hentity := List.mem_append.mp hentity
      · obtain ⟨hepc,hscope⟩ := hfirst.ofProperty.scope entity hentity
        exact ⟨hepc ▸ List.mem_cons_self,hscope⟩
      · obtain ⟨hepc,hscope⟩ := hlater.scope entity hentity
        exact ⟨List.mem_cons_of_mem _ hepc,hscope⟩
    · intro entity hentity
      obtain hentity | hentity := List.mem_append.mp hentity
      · exact hfirst.emitted entity hentity
      · exact hlater.emitted entity hentity

/-- The properties of the latest version have different EPCs. -/
def DistinctEpcs (properties : List MraEntry) : Prop :=
  ∀ epcs, (properties.filter MraEntry.latest).mapM (fun prop => hexInt prop.epc) = .ok epcs → epcs.Nodup

theorem apart_of_properties {classCode : Nat} {build : MraEntry → Except Failure Built} {latest : List MraEntry}
    (hspec : ∀ prop built, build prop = .ok built →
      ∃ epc, hexInt prop.epc = .ok epc ∧ FromProperty classCode epc built.definitions)
    {epcs : List Epc} {built : List Built} (hepcs : latest.mapM (fun prop => hexInt prop.epc) = .ok epcs)
    (hbuilt : latest.mapM build = .ok built) (hnodup : epcs.Nodup) :
    Apart classCode epcs ((built.flatMap Built.entities).map BuildEntity.toEntityDefinition) := by
  have hgroups : List.Forall₂ (FromProperty classCode) epcs (built.map Built.definitions) := by
    rw [List.forall₂_map_right_iff]
    refine forall₂_of_common (mapM_eq_ok.mp hepcs) (mapM_eq_ok.mp hbuilt) ?_
    intro prop epc built hepc hbuilt
    obtain ⟨epc',hepc',hfrom⟩ := hspec prop built hbuilt
    cases hepc.symm.trans hepc'
    exact hfrom
  have hflat : (built.flatMap Built.entities).map BuildEntity.toEntityDefinition =
      (built.map Built.definitions).flatten := by
    rw [List.map_flatMap,List.flatMap_def]
    rfl
  rw [hflat]
  exact apart_flatMap hnodup hgroups

/-! ### The build -/

/-- The definitions of entities, without their roles. -/
def definitionsOf (entities : List BuildEntity) : List EntityDefinition :=
  entities.map BuildEntity.toEntityDefinition

/-- What holds of a build from the MRA. -/
structure DefinitionsBuild.Sound (build : DefinitionsBuild) : Prop where
  common : Apart 0 build.commonEpcs (definitionsOf build.common)
  device : ∀ classCode device, Dict.get classCode build.devices = some device →
    ∃ epcs, Dict.get classCode build.mraEpcs = some epcs ∧ Apart classCode epcs (definitionsOf device.entities)

/-- What was read for a class that was built. -/
theorem Sources.read_of_deviceBuild {sources : Sources} {common : List Epc} {file : DeviceFile}
    {built : DeviceBuild × List Epc × List (Nat × Epc)} (h : sources.deviceBuild common file = .ok built) :
    ∃ epcs atomicPairedEpcs properties,
      (file.elProperties.filter MraEntry.latest).mapM (fun prop => hexInt prop.epc) = .ok epcs ∧
      (file.elProperties.filter MraEntry.latest).mapM
        (sources.deviceProperty file.classCode common atomicPairedEpcs) = .ok properties ∧
      built.1.entities = properties.flatMap Built.entities ∧
      built.1.structuredValues = Dict.ofPairs (properties.filterMap Built.structured) ∧
      built.2 = (epcs,properties.flatMap Built.used) := by
  obtain ⟨shortName,_,h⟩ := bind_eq_ok.mp h
  obtain ⟨epcs,hepcs,h⟩ := bind_eq_ok.mp h
  obtain ⟨atomicPairedEpcs,_,h⟩ := bind_eq_ok.mp h
  obtain ⟨properties,hproperties,h⟩ := bind_eq_ok.mp h
  cases h
  exact ⟨epcs,_,properties,hepcs,hproperties,rfl,rfl,rfl⟩

theorem Sources.deviceBuild_apart {sources : Sources} {common : List Epc} {file : DeviceFile}
    {built : DeviceBuild × List Epc × List (Nat × Epc)} (hfile : DistinctEpcs file.elProperties)
    (h : sources.deviceBuild common file = .ok built) :
    Apart file.classCode built.2.1 (definitionsOf built.1.entities) := by
  obtain ⟨epcs,_,properties,hepcs,hproperties,hentities,_,hread⟩ := read_of_deviceBuild h
  rw [hread,hentities]
  exact apart_of_properties (fun _ _ => deviceProperty_spec) hepcs hproperties (hfile epcs hepcs)

section Generate
variable {definitions : Definitions} {maximumOfHour : Spec → Option Nat} {temporalKinds : List TemporalEntry}
  {roles : RoleMap} {superclass : List MraEntry} {files : List DeviceFile} {build : DefinitionsBuild}

/-- What a build was made from. -/
theorem read_of_generate
    (h : generateDefinitions definitions maximumOfHour temporalKinds roles superclass files = .ok build) :
    ∃ kinds commonBuilt built, loadTemporalKinds temporalKinds = .ok kinds ∧
      let sources : Sources := {definitions, maximumOfHour, kinds, roles}
      (superclass.filter MraEntry.latest).mapM (fun prop => hexInt prop.epc) = .ok build.commonEpcs ∧
      (superclass.filter MraEntry.latest).mapM sources.commonProperty = .ok commonBuilt ∧
      build.common = commonBuilt.flatMap Built.entities ∧
      files.mapM (sources.deviceBuild (build.common.map fun entity => entity.epc)) = .ok built ∧
      (∀ key ∈ kinds.map Prod.fst, key ∈ commonBuilt.flatMap Built.used ++ built.flatMap fun e => e.2.2) ∧
      build.devices = Dict.ofPairs ((files.map DeviceFile.classCode).zip (built.map Prod.fst)) ∧
      build.mraEpcs = Dict.ofPairs ((files.map DeviceFile.classCode).zip (built.map fun e => e.2.1)) := by
  obtain ⟨kinds,hkinds,h⟩ := bind_eq_ok.mp h
  obtain ⟨commonEpcs,hcommonEpcs,h⟩ := bind_eq_ok.mp h
  obtain ⟨commonBuilt,hcommonBuilt,h⟩ := bind_eq_ok.mp h
  obtain ⟨built,hbuilt,h⟩ := bind_eq_ok.mp h
  obtain ⟨hunused,h⟩ := ite_error_eq_ok.mp h
  cases h
  refine ⟨kinds,commonBuilt,built,hkinds,hcommonEpcs,hcommonBuilt,rfl,hbuilt,?_,rfl,rfl⟩
  intro key hkey
  rw [not_not,List.filter_eq_nil_iff] at hunused
  simpa only [decide_eq_true_iff,not_not] using hunused key hkey

/-- A class is what the last of its files says. -/
theorem file_of_device
    (h : generateDefinitions definitions maximumOfHour temporalKinds roles superclass files = .ok build)
    {classCode : Nat} {device : DeviceBuild} (hdevice : Dict.get classCode build.devices = some device) :
    ∃ kinds, loadTemporalKinds temporalKinds = .ok kinds ∧
      ∃ file ∈ files, ∃ built, file.classCode = classCode ∧ device = built.1 ∧
        Sources.deviceBuild {definitions, maximumOfHour, kinds, roles} (build.common.map fun entity => entity.epc) file =
          .ok built ∧
        Dict.get classCode build.mraEpcs = some built.2.1 := by
  obtain ⟨kinds,_,built,hkinds,_,_,_,hbuilt,_,hdevices,hepcs⟩ := read_of_generate h
  rw [hdevices] at hdevice
  rw [hepcs]
  have hzip : ∀ {α : Type} (f : DeviceBuild × List Epc × List (Nat × Epc) → α),
      (files.map DeviceFile.classCode).zip (built.map f) =
        ((files.map DeviceFile.classCode).zip built).map fun e => (e.1,f e.2) := by
    intro α f
    rw [List.zip_map_right]
    rfl
  rw [hzip Prod.fst,Dict.get_ofPairs,LastWrite.latest_map,Option.map_eq_some_iff] at hdevice
  obtain ⟨result,hresult,rfl⟩ := hdevice
  have hmem := LastWrite.mem_of_latest hresult
  rw [List.zip_map_left,List.mem_map] at hmem
  obtain ⟨⟨file,_⟩,hpair,heq⟩ := hmem
  cases heq
  refine ⟨kinds,hkinds,file,(List.of_mem_zip hpair).1,_,rfl,rfl,List.forall₂_zip (mapM_eq_ok.mp hbuilt) hpair,?_⟩
  rw [hzip fun e => e.2.1,Dict.get_ofPairs,
    LastWrite.latest_map fun e : DeviceBuild × List Epc × List (Nat × Epc) => e.2.1,hresult]
  rfl

/-- The files of the MRA have the properties of a class once. -/
theorem generate_sound (hcommon : DistinctEpcs superclass) (hfiles : ∀ file ∈ files, DistinctEpcs file.elProperties)
    (h : generateDefinitions definitions maximumOfHour temporalKinds roles superclass files = .ok build) :
    build.Sound where
  common := by
    obtain ⟨_,_,_,_,hcommonEpcs,hcommonBuilt,hentities,_⟩ := read_of_generate h
    rw [hentities]
    exact apart_of_properties (fun _ _ => Sources.commonProperty_spec) hcommonEpcs hcommonBuilt
      (hcommon build.commonEpcs hcommonEpcs)
  device classCode device hdevice := by
    obtain ⟨kinds,_,file,hfile,built,rfl,rfl,hbuilt,hepcs⟩ := file_of_device h hdevice
    exact ⟨built.2.1,hepcs,Sources.deviceBuild_apart (hfiles file hfile) hbuilt⟩

end Generate

end Pyhems.Generator

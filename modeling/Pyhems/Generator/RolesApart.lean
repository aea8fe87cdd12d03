import Pyhems.Generator.Pipeline

/-! Roles. They matter to nothing else that the generator does: a build is one without roles, of which each entity
is then given the role that stands in the sheet for its class and its EPC. -/
namespace Pyhems.Generator
open Library Codec Fallible
open Get (Epc)

/-- The entity with the role that the sheet has for it. -/
def BuildEntity.withRole (roles : RoleMap) (classCode : Nat) (entity : BuildEntity) : BuildEntity :=
  applyRole roles classCode entity.toEntityDefinition

def Built.withRoles (roles : RoleMap) (classCode : Nat) (built : Built) : Built :=
  {built with entities := built.entities.map (BuildEntity.withRole roles classCode)}

def DeviceBuild.withRoles (roles : RoleMap) (classCode : Nat) (device : DeviceBuild) : DeviceBuild :=
  {device with entities := device.entities.map (BuildEntity.withRole roles classCode)}

/-- The entities of all classes are those of class 0. -/
def DefinitionsBuild.withRoles (roles : RoleMap) (build : DefinitionsBuild) : DefinitionsBuild :=
  {build with
    common := build.common.map (BuildEntity.withRole roles 0)
    devices := build.devices.map fun e => (e.1,e.2.withRoles roles e.1)}

/-! ### Properties -/

namespace Sources
variable {sources : Sources}

/-- The same without roles. -/
def plain (sources : Sources) : Sources := {sources with roles := []}

theorem commonProperty_eq (prop : MraEntry) :
    sources.commonProperty prop = Built.withRoles sources.roles 0 <$> sources.plain.commonProperty prop := by
  unfold commonProperty
  rw [map_bind]
  refine bind_congr fun parsed => ?_
  rw [map_bind]
  refine bind_congr fun found => ?_
  obtain ⟨entity,used⟩ := found
  cases entity with
  | some entity => rfl
  | none =>
    dsimp only
    rw [map_bind]
    refine bind_congr fun alternative => ?_
    cases alternative with
    | true => rfl
    | false =>
      rw [if_neg Bool.false_ne_true,if_neg Bool.false_ne_true,map_bind]
      refine bind_congr fun entity => ?_
      cases entity <;> rfl

theorem deviceProperty_eq (classCode : Nat) (common atomicPairedEpcs : List Epc) (prop : MraEntry) :
    sources.deviceProperty classCode common atomicPairedEpcs prop =
      Built.withRoles sources.roles classCode <$>
        sources.plain.deviceProperty classCode common atomicPairedEpcs prop := by
  unfold deviceProperty
  rw [map_bind]
  refine bind_congr fun epc => ?_
  rw [map_bind]
  refine bind_congr fun found => ?_
  obtain ⟨entity,used⟩ := found
  cases entity with
  | some entity => rfl
  | none =>
    dsimp only
    rw [map_bind]
    refine bind_congr fun alternative => ?_
    cases alternative with
    | true => rfl
    | false =>
      rw [if_neg Bool.false_ne_true,if_neg Bool.false_ne_true]
      by_cases hcommon : epc ∈ common
      · rw [if_pos hcommon,if_pos hcommon]
        rfl
      · rw [if_neg hcommon,if_neg hcommon,map_bind]
        refine bind_congr fun entities => ?_
        cases entities with
        | some entities =>
          refine congrArg Except.ok ?_
          simp only [Built.withRoles,List.map_map]
          rfl
        | none =>
          dsimp only
          rw [map_bind]
          refine bind_congr fun parsed => ?_
          rw [map_bind]
          refine bind_congr fun entity => ?_
          cases entity with
          | some entity => rfl
          | none =>
            dsimp only
            rw [map_bind]
            refine bind_congr fun structured => ?_
            cases structured with
            | true =>
              rw [if_pos rfl,if_pos rfl,map_bind]
              rfl
            | false => rfl

/-! ### Files -/

theorem deviceBuild_eq (common : List Epc) (file : DeviceFile) : sources.deviceBuild common file =
    (fun built => (built.1.withRoles sources.roles file.classCode,built.2)) <$>
      sources.plain.deviceBuild common file := by
  unfold deviceBuild
  rw [map_bind]
  refine bind_congr fun shortName => ?_
  rw [map_bind]
  refine bind_congr fun mraEpcs => ?_
  rw [map_bind]
  refine bind_congr fun atomicPairedEpcs => ?_
  rw [mapM_eq_map (deviceProperty_eq file.classCode common atomicPairedEpcs.flatten),bind_map_left,map_bind]
  refine bind_congr fun built => congrArg Except.ok ?_
  simp only [DeviceBuild.withRoles,List.flatMap_map,List.filterMap_map,List.map_flatMap]
  rfl

end Sources

theorem epc_flatMap_withRoles (roles : RoleMap) (classCode : Nat) (built : List Built) :
    ((built.map (Built.withRoles roles classCode)).flatMap Built.entities).map (fun entity => entity.epc) =
      (built.flatMap Built.entities).map fun entity => entity.epc := by
  rw [List.flatMap_map,List.map_flatMap,List.map_flatMap]
  congr 1
  funext one
  exact List.map_map

/-- The classes of files with what is built from them. -/
theorem zip_withRoles (roles : RoleMap) (files : List DeviceFile)
    (built : List (DeviceBuild × List Epc × List (Nat × Epc))) :
    (files.map DeviceFile.classCode).zip ((List.zipWith (fun (file : DeviceFile) result =>
        (DeviceBuild.withRoles roles file.classCode result.1,result.2)) files built).map Prod.fst) =
      ((files.map DeviceFile.classCode).zip (built.map Prod.fst)).map fun e => (e.1,e.2.withRoles roles e.1) := by
  induction files generalizing built with
  | nil => rfl
  | cons file files ih =>
    cases built with
    | nil => rfl
    | cons one built => exact congrArg _ (ih built)

theorem map_snd_zipWith (roles : RoleMap) {files : List DeviceFile}
    {built : List (DeviceBuild × List Epc × List (Nat × Epc))} (h : files.length = built.length) :
    (List.zipWith (fun (file : DeviceFile) result =>
      (DeviceBuild.withRoles roles file.classCode result.1,result.2)) files built).map Prod.snd = built.map Prod.snd := by
  induction files generalizing built with
  | nil => rw [List.length_eq_zero_iff.mp h.symm]; rfl
  | cons file files ih =>
    cases built with
    | nil => cases h
    | cons one built => exact congrArg (List.cons one.2) (ih (Nat.succ.inj h))

/-- A build is the one without roles, with a role for each of its entities. -/
theorem Inputs.generate_eq (inputs : Inputs) : inputs.generate =
    DefinitionsBuild.withRoles inputs.roles <$> ({inputs with roles := []} : Inputs).generate := by
  unfold Inputs.generate generateDefinitions
  rw [map_bind]
  refine bind_congr fun kinds => ?_
  dsimp only
  rw [map_bind]
  refine bind_congr fun commonEpcs => ?_
  rw [mapM_eq_map Sources.commonProperty_eq,bind_map_left,map_bind]
  refine bind_congr fun commonBuilt => ?_
  rw [epc_flatMap_withRoles,mapM_eq_zipWith (Sources.deviceBuild_eq _),bind_map_left,map_bind]
  refine bind_congr_ok fun built hbuilt => ?_
  have hsnd := map_snd_zipWith inputs.roles (mapM_eq_ok.mp hbuilt).length_eq
  have hzip := zip_withRoles inputs.roles inputs.files built
  dsimp only at hsnd hzip ⊢
  generalize List.zipWith _ inputs.files built = given at hsnd hzip ⊢
  have hused : given.flatMap (fun e => e.2.2) = built.flatMap fun e => e.2.2 := by
    have h := congrArg (List.flatMap Prod.snd) hsnd
    rwa [List.flatMap_map,List.flatMap_map] at h
  have hepcs : given.map (fun e => e.2.1) = built.map fun e => e.2.1 := by
    have h := congrArg (List.map Prod.fst) hsnd
    rwa [List.map_map,List.map_map] at h
  have hcommon : (commonBuilt.map (Built.withRoles inputs.roles 0)).flatMap Built.used =
      commonBuilt.flatMap Built.used := List.flatMap_map ..
  rw [hused,hepcs,hcommon,hzip]
  split
  · rfl
  · refine congrArg Except.ok ?_
    rw [Dict.ofPairs_map fun classCode device => DeviceBuild.withRoles inputs.roles classCode device,List.flatMap_map]
    unfold DefinitionsBuild.withRoles
    rw [List.map_flatMap]
    rfl

/-! ### Other roles -/

section Agreement
variable {roles roles' : RoleMap} {build : DefinitionsBuild}

theorem map_withRole_map (classCode : Nat) (entities : List BuildEntity) :
    (entities.map (BuildEntity.withRole roles classCode)).map (BuildEntity.withRole roles' classCode) =
      entities.map (BuildEntity.withRole roles' classCode) := List.map_map

/-- Roles that are given later replace those that were given before. -/
theorem withRoles_withRoles : (build.withRoles roles).withRoles roles' = build.withRoles roles' := by
  unfold DefinitionsBuild.withRoles
  congr 1
  · exact map_withRole_map 0 build.common
  · rw [List.map_map]
    apply List.map_congr_left
    intro e _
    refine congrArg (fun entities => (e.1,{e.2 with entities})) ?_
    exact map_withRole_map e.1 e.2.entities

/-- Only the roles at the coordinates of the entities matter. -/
theorem withRoles_congr (hcommon : ∀ entity ∈ build.common,
      Dict.get (roleKey (0,entity.epc)) roles' = Dict.get (roleKey (0,entity.epc)) roles)
    (hdevices : ∀ e ∈ build.devices, ∀ entity ∈ e.2.entities,
      Dict.get (roleKey (e.1,entity.epc)) roles' = Dict.get (roleKey (e.1,entity.epc)) roles) :
    build.withRoles roles' = build.withRoles roles := by
  have hrole : ∀ (classCode : Nat) (entity : BuildEntity),
      Dict.get (roleKey (classCode,entity.epc)) roles' = Dict.get (roleKey (classCode,entity.epc)) roles →
        entity.withRole roles' classCode = entity.withRole roles classCode := by
    intro classCode entity h
    unfold BuildEntity.withRole applyRole
    rw [h]
  unfold DefinitionsBuild.withRoles
  congr 1
  · exact List.map_congr_left fun entity hentity => hrole 0 entity (hcommon entity hentity)
  · apply List.map_congr_left
    intro e he
    refine congrArg (Prod.mk e.1) (congrArg (fun entities => {e.2 with entities}) ?_)
    exact List.map_congr_left fun entity hentity => hrole e.1 entity (hdevices e he entity hentity)

namespace Inputs
variable {inputs : Inputs} {generated : DefinitionsBuild}

theorem generated_eq (h : inputs.generate = .ok generated) : generated.withRoles inputs.roles = generated ∧
    ∀ roles, ({inputs with roles} : Inputs).generate = .ok (generated.withRoles roles) := by
  rw [generate_eq] at h
  cases hplain : ({inputs with roles := []} : Inputs).generate with
  | error failure =>
    rw [hplain] at h
    cases h
  | ok plain =>
    rw [hplain] at h
    cases h
    refine ⟨withRoles_withRoles,?_⟩
    intro roles
    rw [generate_eq,hplain,withRoles_withRoles]
    rfl

theorem nodup_devices (h : inputs.generate = .ok generated) : (generated.devices.map Prod.fst).Nodup := by
  obtain ⟨_,_,_,_,_,_,_,_,_,hdevices,_⟩ := read_of_generate h
  rw [hdevices]
  exact Dict.nodup_keys_ofPairs _

/-- Roles that agree at the entities of a build give the same build. -/
theorem generate_of_agree (h : inputs.generate = .ok generated) {roles : RoleMap}
    (hcommon : ∀ entity ∈ generated.common,
      Dict.get (roleKey (0,entity.epc)) roles = Dict.get (roleKey (0,entity.epc)) inputs.roles)
    (hown : ∀ classCode, ∀ entity ∈ generated.entities classCode,
      Dict.get (roleKey (classCode,entity.epc)) roles = Dict.get (roleKey (classCode,entity.epc)) inputs.roles) :
    ({inputs with roles} : Inputs).generate = .ok generated := by
  obtain ⟨hself,hgenerate⟩ := generated_eq h
  rw [hgenerate roles]
  refine congrArg Except.ok ((withRoles_congr hcommon ?_).trans hself)
  rintro ⟨classCode,device⟩ hdevice entity hentity
  apply hown
  rw [DefinitionsBuild.entities,(Dict.get_eq_some (nodup_devices h)).mpr hdevice]
  exact hentity

end Inputs
end Agreement

end Pyhems.Generator

import Pyhems.Generator.CustomBuilds
import Pyhems.Generator.RoundTrip

/-! The registry that the generator writes. A class has the entities that all classes share, unless it has entities of
its own for their EPCs. -/
namespace Pyhems.Generator
open Library Codec Fallible
open Protocol (hexUpper)
open Get (Epc)

/-! ### The generated module -/

def mergeEntities (groups : List (List BuildEntity)) : List BuildEntity :=
  groups.foldl (fun merged group =>
    merged.filter (fun entity => decide (entity.epc ∉ group.map fun other => other.epc)) ++ group) []

namespace DefinitionsBuild

/-- The entities that are written for a class. -/
def written (build : DefinitionsBuild) (classCode : Nat) : List BuildEntity :=
  match Dict.get classCode build.devices with
  | none => []
  | some device =>
    if device.entities ≠ [] then mergeEntities [build.common,device.entities] else mergeEntities [build.common]

def registry (build : DefinitionsBuild) : Registry := ⟨fun classCode => definitionsOf (build.written classCode)⟩

end DefinitionsBuild

/-! ### The checks of a module -/

/-- An underscore before the last capital of several, if a small letter follows. -/
def splitCapitals : List Char → List Char
  | a :: b :: c :: cs =>
    if a.isUpper ∧ b.isUpper ∧ c.isLower then a :: '_' :: splitCapitals (b :: c :: cs)
    else a :: splitCapitals (b :: c :: cs)
  | cs => cs

/-- An underscore before a capital after a small letter or a digit. -/
def splitWords : List Char → List Char
  | a :: b :: cs =>
    if (a.isLower ∨ a.isDigit) ∧ b.isUpper then a :: '_' :: splitWords (b :: cs) else a :: splitWords (b :: cs)
  | cs => cs

def shortNameToEnumMember (shortName : String) (classCode : Nat) : String :=
  if classCode / 256 = 0x0F then "USER_DEFINED_" ++ hexUpper 4 classCode
  else String.ofList ((splitWords (splitCapitals shortName.toList)).map Char.toUpper)

/-- A turn of the loop over the names of the classes. -/
def addEnumMember (enumMembers : List (String × Nat)) (entry : Nat × DeviceBuild) :
    Except Failure (List (String × Nat)) :=
  let member := shortNameToEnumMember entry.2.shortName entry.1
  match Dict.get member enumMembers with
  | some previous => .error (.valueError (s!"DeviceClass member {quoted member} is used by classes " ++
      s!"0x{hexUpper 4 previous} and 0x{hexUpper 4 entry.1}"))
  | none => .ok (Dict.insert member entry.1 enumMembers)

def validateEntity (classCode : Nat) (entity : BuildEntity) : Except Failure Unit :=
  let name := s!"Entity EPC 0x{hexUpper 2 entity.epc} for class 0x{hexUpper 4 classCode}"
  if entity.enumValues = [] ∧ entity.format.filter (· ≠ "") = none ∧ entity.numericValues.getD [] = [] ∧
      entity.temporal = none then
    .error (.assertionError (name ++ " missing format"))
  else if entity.enumValues.length = 1 ∧ entity.readable ∧ entity.format = none ∧ entity.temporal = none then
    .error (.assertionError (name ++ " has only 1 enum_value"))
  else .ok ()

/-- The checks of `_generate_python_source`. -/
def validateBuild (build : DefinitionsBuild) : Except Failure Unit := do
  let _ ← build.devices.foldlM addEnumMember []
  build.devices.forM fun (classCode,device) => (build.common ++ device.entities).forM (validateEntity classCode)

theorem addEnumMember_eq_ok {members result : List (String × Nat)} {entry : Nat × DeviceBuild} :
    addEnumMember members entry = .ok result ↔
      Dict.get (shortNameToEnumMember entry.2.shortName entry.1) members = none ∧
        Dict.insert (shortNameToEnumMember entry.2.shortName entry.1) entry.1 members = result := by
  rw [addEnumMember]
  cases Dict.get (shortNameToEnumMember entry.2.shortName entry.1) members with
  | none => simp
  | some previous => simp

/-- The loop goes through only if all names are different, from each other and from those before it. -/
theorem addEnumMember_foldlM {devices : List (Nat × DeviceBuild)} {members result : List (String × Nat)}
    (h : devices.foldlM addEnumMember members = .ok result) :
    (devices.map fun entry => shortNameToEnumMember entry.2.shortName entry.1).Nodup ∧
      ∀ entry ∈ devices, Dict.get (shortNameToEnumMember entry.2.shortName entry.1) members = none := by
  induction devices generalizing members with
  | nil => exact ⟨List.nodup_nil,nofun⟩
  | cons entry devices ih =>
    rw [List.foldlM_cons] at h
    obtain ⟨next,hnext,h⟩ := bind_eq_ok.mp h
    obtain ⟨hnone,rfl⟩ := addEnumMember_eq_ok.mp hnext
    obtain ⟨hnodup,hfree⟩ := ih h
    have hother : ∀ other ∈ devices, shortNameToEnumMember entry.2.shortName entry.1 ≠
        shortNameToEnumMember other.2.shortName other.1 ∧
          Dict.get (shortNameToEnumMember other.2.shortName other.1) members = none := by
      intro other hmem
      have hget := hfree other hmem
      rw [Dict.get_insert] at hget
      split at hget
      · cases hget
      · next hne => exact ⟨hne,hget⟩
    refine ⟨List.nodup_cons.mpr ⟨?_,hnodup⟩,List.forall_mem_cons.mpr ⟨hnone,fun other hmem => (hother other hmem).2⟩⟩
    intro hmem
    obtain ⟨other,hmem,heq⟩ := List.mem_map.mp hmem
    exact (hother other hmem).1 heq.symm

/-- The classes of a module that is written have different names. -/
theorem names_nodup {build : DefinitionsBuild} (h : validateBuild build = .ok ()) :
    (build.devices.map fun entry => shortNameToEnumMember entry.2.shortName entry.1).Nodup := by
  obtain ⟨_,hmembers,_⟩ := bind_eq_ok.mp h
  exact (addEnumMember_foldlM hmembers).1

example : shortNameToEnumMember "homeAirConditioner" 0x0130 = "HOME_AIR_CONDITIONER" ∧
    shortNameToEnumMember "gatewayLTEModem" 0x05FF = "GATEWAY_LTE_MODEM" ∧
    shortNameToEnumMember "anything" 0x0F01 = "USER_DEFINED_0F01" := by decide +kernel

/-- What the generator reads: the files of the MRA, the curated tables, and the mapping of the custom definitions,
which is none if there is no file of them. -/
structure Inputs where
  definitions : Definitions
  maximumOfHour : Spec → Option Nat
  temporalKinds : List TemporalEntry
  roles : RoleMap
  superclass : List MraEntry
  files : List DeviceFile
  custom : Option (Option (List (Scalar × Option ClassEntry)))

namespace Inputs
variable (inputs : Inputs)

/-- The build from the files of the MRA. -/
def generate : Except Failure DefinitionsBuild :=
  generateDefinitions inputs.definitions inputs.maximumOfHour inputs.temporalKinds inputs.roles inputs.superclass
    inputs.files

/-- The build with the custom definitions, if there are any. -/
def customize (generated : DefinitionsBuild) : Except Failure DefinitionsBuild :=
  match inputs.custom with
  | none => .ok generated
  | some devices => applyCustomDefinitions generated devices

/-- `_build_generated_source`, up to the text. -/
def build : Except Failure DefinitionsBuild := do
  let build ← inputs.customize (← inputs.generate)
  validateBuild build
  pure build

/-- The files have each property once, and the mapping each class. -/
structure WellFormed : Prop where
  superclass : DistinctEpcs inputs.superclass
  files : ∀ file ∈ inputs.files, DistinctEpcs file.elProperties
  custom : ∀ devices, inputs.custom = some (some devices) → (devices.map Prod.fst).Nodup

variable {inputs} {build : DefinitionsBuild}

/-- A build is one of the MRA with its custom definitions, and it has passed the checks. -/
theorem customized_of_build (h : inputs.WellFormed) (hbuild : inputs.build = .ok build) :
    ∃ generated, inputs.generate = .ok generated ∧ generated.Sound ∧ generated.Customized [] build ∧
      validateBuild build = .ok () := by
  obtain ⟨generated,hgenerated,hbuild⟩ := bind_eq_ok.mp hbuild
  obtain ⟨custom,hcustom,hbuild⟩ := bind_eq_ok.mp hbuild
  obtain ⟨_,hvalid,hbuild⟩ := bind_eq_ok.mp hbuild
  cases hbuild
  have hsound := generate_sound h.superclass h.files hgenerated
  refine ⟨generated,hgenerated,hsound,?_,hvalid⟩
  cases hfile : inputs.custom with
  | none =>
    rw [customize,hfile] at hcustom
    cases hcustom
    exact customized_init hsound List.nodup_nil
  | some devices =>
    rw [customize,hfile] at hcustom
    cases devices with
    | none => cases hcustom
    | some devices => exact customized_of_apply hsound (h.custom devices hfile) hcustom

theorem consistent_of_build (h : inputs.WellFormed) (hbuild : inputs.build = .ok build) : build.Consistent := by
  obtain ⟨_,_,_,hcustomized,_⟩ := customized_of_build h hbuild
  exact hcustomized.consistent

end Inputs

/-! ### Lookups -/

section Lookups
variable {build : DefinitionsBuild} {classCode : Nat} {entity : EntityDefinition}

theorem registry_entities : build.registry.entities classCode = definitionsOf (build.written classCode) := rfl

theorem written_of_none (h : Dict.get classCode build.devices = none) :
    build.written classCode = [] ∧ build.entities classCode = [] := by
  unfold DefinitionsBuild.written DefinitionsBuild.entities
  rw [h]
  exact ⟨rfl,rfl⟩

theorem device_of_entity {entity : BuildEntity} (h : entity ∈ build.entities classCode) :
    ∃ device, Dict.get classCode build.devices = some device ∧ entity ∈ device.entities := by
  rw [DefinitionsBuild.entities] at h
  cases hdevice : Dict.get classCode build.devices with
  | none =>
    rw [hdevice] at h
    cases h
  | some device =>
    rw [hdevice] at h
    exact ⟨device,rfl,h⟩

/-- The shared entities come first, without those of EPCs that the class has itself. -/
theorem written_eq {device : DeviceBuild} (hdevice : Dict.get classCode build.devices = some device) :
    build.written classCode = build.common.filter (fun entity =>
      decide (entity.epc ∉ (build.entities classCode).map fun other => other.epc)) ++ build.entities classCode := by
  have hmerge : ∀ group : List BuildEntity, mergeEntities [group] = group := fun group => List.nil_append group
  have hentities : build.entities classCode = device.entities := by
    rw [DefinitionsBuild.entities,hdevice]
    rfl
  rw [DefinitionsBuild.written,hdevice,hentities]
  dsimp only
  split
  · exact congrArg (fun common => List.filter _ common ++ device.entities) (hmerge build.common)
  · next hempty =>
    simp only [not_not.mp hempty,hmerge,List.append_nil,List.map_nil,List.not_mem_nil,not_false_eq_true,decide_true,
      List.filter_true]

/-- An entity of a class is its own or shared by all. -/
theorem mem_registry : entity ∈ build.registry.entities classCode ↔
    entity ∈ definitionsOf (build.entities classCode) ∨ Dict.get classCode build.devices ≠ none ∧
      entity ∈ definitionsOf build.common ∧
        ∀ other ∈ definitionsOf (build.entities classCode), other.epc ≠ entity.epc := by
  cases hdevice : Dict.get classCode build.devices with
  | none =>
    rw [registry_entities,(written_of_none hdevice).1,(written_of_none hdevice).2]
    simp [definitionsOf]
  | some device =>
    rw [registry_entities,written_eq hdevice,definitionsOf,List.map_append,List.mem_append,or_comm]
    refine or_congr Iff.rfl ?_
    simp only [definitionsOf,List.mem_map,List.mem_filter,decide_eq_true_eq,ne_eq,reduceCtorEq,not_false_eq_true,
      true_and,not_exists,not_and]
    constructor
    · rintro ⟨built,⟨hmem,hother⟩,rfl⟩
      refine ⟨⟨built,hmem,rfl⟩,?_⟩
      rintro other ⟨own,hown,rfl⟩ heq
      exact hother own hown heq
    · rintro ⟨⟨built,hmem,rfl⟩,hother⟩
      exact ⟨built,⟨hmem,fun own hown heq => hother _ ⟨own,hown,rfl⟩ heq⟩,rfl⟩

theorem DefinitionsBuild.Consistent.separate (h : build.Consistent) (classCode : Nat) :
    Separate (build.registry.entities classCode) := by
  cases hdevice : Dict.get classCode build.devices with
  | none =>
    rw [registry_entities,(written_of_none hdevice).1]
    exact .nil
  | some device =>
    rw [registry_entities,written_eq hdevice,definitionsOf,List.map_append]
    refine List.pairwise_append.mpr ⟨?_,(h.ofClass classCode).separate,?_⟩
    · exact h.common.separate.sublist (List.filter_sublist.map _)
    · intro shared hshared own hown hclash
      obtain ⟨built,hbuilt,rfl⟩ := List.mem_map.mp hshared
      obtain ⟨other,hother,rfl⟩ := List.mem_map.mp hown
      have hfree := of_decide_eq_true (List.mem_filter.mp hbuilt).2
      exact hfree (List.mem_map.mpr ⟨other,hother,hclash.1.symm⟩)

end Lookups

/-- A lookup finds exactly the entity with its coordinates, one for all manufacturers whichever is asked for. -/
theorem Inputs.entity_iff {inputs : Inputs} {build : DefinitionsBuild} (h : inputs.WellFormed)
    (hbuild : inputs.build = .ok build) {classCode : Nat} {epc : Epc} {manufacturerCode : Option Nat}
    {byteOffset : Nat} {entity : EntityDefinition} :
    build.registry.entity classCode epc manufacturerCode byteOffset = some entity ↔
      entity ∈ build.registry.entities classCode ∧ entity.epc = epc ∧ entity.byteOffset = byteOffset ∧
        (entity.manufacturerCode = none ∨ entity.manufacturerCode = manufacturerCode) := by
  constructor
  · exact mem_of_entity
  · rintro ⟨hentity,rfl,rfl,hscope⟩
    exact ((consistent_of_build h hbuild).separate classCode).found hentity hscope

/-! ### An air conditioner -/

/-- A property of the latest version, called `name`. -/
def latestEntry (epc name : String) (data : Spec) : MraEntry :=
  {epc, propertyName := (name,name), descriptions := ("",""), get := .required, set := .optional, data, latest := true}

def onOffStates : List EnumItem := [stateItem "0x30" "on",stateItem "0x31" "off"]

def modeStates : List EnumItem := [stateItem "0x41" "auto",stateItem "0x42" "cooling",stateItem "0x43" "heating"]

def temperatureList : Spec where
  type := some .array
  itemSize := some 1
  maxItems := some 4
  items := some {type := some .number, format := some "int8"}

def coolingPatch : PropertyEntry where
  mode := some (.text "patch")
  epc := some (.int 0xB0)
  enumValues := some (.entries [some {key := some (.text "cooling"), nameEn := some "Cool"}])

def fanLevelEntry : PropertyEntry where
  epc := some (.int 0xF1)
  manufacturerCode := some (.int 0x16)
  nameEn := some "Fan level"
  nameJa := some "風量"
  get := some (.text "required")
  format := some (.text "uint8")

/-- An air conditioner with an off timer and a list of temperatures, for which a manufacturer has a fan level of its
own. -/
def airConditioner : Inputs where
  definitions _ := none
  maximumOfHour _ := none
  temporalKinds := [⟨0,0x97,"clock"⟩,⟨0x0130,0x94,"duration"⟩]
  roles := [((0x0130,0xB3),.setting)]
  superclass := [
    latestEntry "0x80" "Operation status" {type := some .state, size := some 1, enum := some onOffStates},
    latestEntry "0x97" "Current time setting" {type := some .time, size := some 2}]
  files := [⟨0x0130,"homeAirConditioner",("Home air conditioner","家庭用エアコン"),[
    latestEntry "0xB3" "Set temperature value" {type := some .number, format := some "uint8", maximum := some 50},
    latestEntry "0xB0" "Operation mode setting" {type := some .state, size := some 1, enum := some modeStates},
    latestEntry "0x94" "Off timer" {oneOf := some [{type := some .time, size := some 2},
      {type := some .state, size := some 2, enum := some [stateItem "0xFFFF" "unset"]}]},
    latestEntry "0xC5" "Temperatures" temperatureList]⟩]
  custom := some (some [(.int 0x0130,some {properties := some [some coolingPatch,some fanLevelEntry]})])

/-- What the generator makes of the files. -/
def airConditionerMra : DefinitionsBuild := airConditioner.generate.toOption.getD ⟨[],[],[],[]⟩

/-- What it makes of the custom definitions, too. -/
def airConditionerBuild : DefinitionsBuild := airConditioner.build.toOption.getD ⟨[],[],[],[]⟩

theorem eq_ok_getD {α : Type} {result : Except Failure α} (h : result.toOption.isSome = true) (default : α) :
    result = .ok (result.toOption.getD default) := by
  cases result with
  | error failure => cases h
  | ok value => rfl

theorem airConditioner_generate : airConditioner.generate = .ok airConditionerMra :=
  eq_ok_getD (by decide +kernel) _

theorem airConditioner_build : airConditioner.build = .ok airConditionerBuild := eq_ok_getD (by decide +kernel) _

theorem distinctEpcs_of_eq {properties : List MraEntry} (epcs : List Epc)
    (h : (properties.filter MraEntry.latest).mapM (fun prop => hexInt prop.epc) = .ok epcs) (hepcs : epcs.Nodup) :
    DistinctEpcs properties := by
  intro other hother
  cases h.symm.trans hother
  exact hepcs

theorem airConditioner_wellFormed : airConditioner.WellFormed where
  superclass := distinctEpcs_of_eq [0x80,0x97] (by decide +kernel) (by decide)
  files file hfile := by
    rw [List.mem_singleton.mp hfile]
    exact distinctEpcs_of_eq [0xB3,0xB0,0x94,0xC5] (by decide +kernel) (by decide)
  custom devices h := by
    cases h
    decide

def fanLevel : EntityDefinition where
  id := "class_0130_epc_f1_000016"
  epc := 0xF1
  nameEn := "Fan level"
  nameJa := "風量"
  readable := true
  writable := false
  format := "uint8"
  manufacturerCode := some 0x16

theorem fanLevel_mem : fanLevel ∈ airConditionerBuild.registry.entities 0x0130 := by decide +kernel

def timerEntity : EntityDefinition where
  id := "class_0130_epc_94"
  epc := 0x94
  nameEn := "Off timer"
  nameJa := "Off timer"
  readable := true
  writable := true
  descriptionEn := some ""
  descriptionJa := some ""
  enumValues := [⟨0xFFFF,"unset","unset","unset"⟩]
  temporal := some ⟨.duration,2,23,List.mem_cons_self,Nat.le_of_ble_eq_true rfl,fun h => by cases h⟩

theorem timerEntity_mem : timerEntity ∈ airConditionerBuild.registry.entities 0x0130 := by decide +kernel

theorem Inputs.entity_fanLevel : airConditionerBuild.registry.entity 0x0130 0xF1 (some 0x16) 0 = some fanLevel :=
  (Inputs.entity_iff airConditioner_wellFormed airConditioner_build).mpr ⟨fanLevel_mem,rfl,rfl,Or.inr rfl⟩

end Pyhems.Generator

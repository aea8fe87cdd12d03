import Pyhems.Generator.RoleLoad
import Pyhems.Generator.RolesApart
import Pyhems.Generator.TemporalTable

/-! The scan of the MRA for the roles sheet. An EPC that all classes share is scanned once, for the superclass,
unless a class has a date or a time of its own there; an entity is left without a row if its class has it for an EPC
of the superclass in another way. -/
namespace Pyhems.Generator
open Library Codec Fallible
open Get (Epc)

def AccessRule.text : AccessRule → String
  | .required => "required"
  | .requiredC => "required_c"
  | .requiredO => "required_o"
  | .optional => "optional"
  | .other text => text

/-- `_extract`; an `IndexError` is a `LookupError`. -/
def extract (definitions : Definitions) (classNameJa : String) (prop : PropertyData) : Except Failure PropertyInfo := do
  let nameEn := normalizeTrailingNumber prop.propertyName.1
  let nameJa := prop.propertyName.2
  let dataSpec ← match prop.data.oneOf with
    | none => pure prop.data
    | some (first :: _) => pure first
    | some [] => throw (.lookupError "list index out of range")
  let resolved ← resolveRef dataSpec definitions
  let number := decide (resolved.type = some .number)
  pure {
    classNameJa
    nameEn
    nameJa
    descriptionJa := prop.descriptions.2
    get := prop.get.text
    set := prop.set.text
    unit := if number then resolved.unit.getD "" else ""
    format := if number then resolved.format.getD "" else "" }

/-- The key of a property and what is told of it. -/
def scanned (definitions : Definitions) (classNameJa : String) (classCode : Nat) (prop : MraEntry) :
    Except Failure ((Nat × Nat) × PropertyInfo) := do
  let epc ← hexInt prop.epc
  pure ((classCode,epc),← extract definitions classNameJa prop.toPropertyData)

/-- The body of the loop over the properties of a class. -/
def Sources.scanProperty (sources : Sources) (common : List Epc) (file : DeviceFile) (prop : MraEntry) :
    Except Failure (Option ((Nat × Nat) × PropertyInfo)) := do
  let epc ← hexInt prop.epc
  let entity ← if epc ∈ common then Prod.fst <$> sources.temporalEntity file.classCode prop.toPropertyData
    else pure none
  if epc ∈ common ∧ entity = none then pure none
  else some <$> scanned sources.definitions file.className.2 file.classCode prop

namespace Inputs
variable (inputs : Inputs)

/-- `_scan_mra_properties`, where the superclass has a name. -/
def scanMraProperties (superclassNameJa : String) : Except Failure Current := do
  let kinds ← loadTemporalKinds inputs.temporalKinds
  let sources : Sources := {
    definitions := inputs.definitions, maximumOfHour := inputs.maximumOfHour, kinds, roles := inputs.roles }
  let shared ← (inputs.superclass.filter MraEntry.latest).mapM (scanned inputs.definitions superclassNameJa 0)
  let common := shared.map fun e => e.1.2
  let own ← inputs.files.mapM fun file =>
    (file.elProperties.filter MraEntry.latest).mapM (sources.scanProperty common file)
  pure (Dict.ofPairs (shared ++ own.flatten.filterMap id))

end Inputs

/-! ### What is scanned -/

section Scanned
variable {definitions : Definitions} {name : String} {classCode : Nat} {prop : MraEntry}
  {entry : (Nat × Nat) × PropertyInfo}

theorem key_of_scanned (h : scanned definitions name classCode prop = .ok entry) :
    ∃ epc, hexInt prop.epc = .ok epc ∧ entry.1 = (classCode,epc) := by
  obtain ⟨epc,hepc,h⟩ := bind_eq_ok.mp h
  obtain ⟨_,_,h⟩ := bind_eq_ok.mp h
  cases h
  exact ⟨epc,hepc,rfl⟩

end Scanned

namespace Inputs
variable {inputs : Inputs} {name : String} {current : Current} {generated : DefinitionsBuild}

/-- The tables of a scan, and the properties of the superclass in it. -/
theorem shared_of_scan (h : inputs.scanMraProperties name = .ok current) :
    ∃ kinds shared own, loadTemporalKinds inputs.temporalKinds = .ok kinds ∧
      (inputs.superclass.filter MraEntry.latest).mapM (scanned inputs.definitions name 0) = .ok shared ∧
      (inputs.files.mapM fun file => (file.elProperties.filter MraEntry.latest).mapM
        (Sources.scanProperty ⟨inputs.definitions,inputs.maximumOfHour,kinds,inputs.roles⟩
          (shared.map fun e => e.1.2) file)) = .ok own ∧
      current = Dict.ofPairs (shared ++ own.flatten.filterMap id) := by
  obtain ⟨kinds,hkinds,h⟩ := bind_eq_ok.mp h
  obtain ⟨shared,hshared,h⟩ := bind_eq_ok.mp h
  obtain ⟨own,hown,h⟩ := bind_eq_ok.mp h
  cases h
  exact ⟨kinds,shared,own,hkinds,hshared,hown,rfl⟩

theorem nodup_of_scan (h : inputs.scanMraProperties name = .ok current) : (current.map Prod.fst).Nodup := by
  obtain ⟨_,_,_,_,_,_,rfl⟩ := shared_of_scan h
  exact Dict.nodup_keys_ofPairs _

/-- Every entity that all classes share stands under a property of the superclass. -/
theorem covered_common (hscan : inputs.scanMraProperties name = .ok current)
    (hgenerate : inputs.generate = .ok generated) :
    ∀ entity ∈ generated.common, (0,entity.epc) ∈ current.map Prod.fst := by
  obtain ⟨_,shared,_,_,hshared,_,rfl⟩ := shared_of_scan hscan
  obtain ⟨_,commonBuilt,_,_,_,hcommon,hentities,_⟩ := read_of_generate hgenerate
  intro entity hentity
  rw [hentities] at hentity
  obtain ⟨one,hone,hentity⟩ := List.mem_flatMap.mp hentity
  have hkeys : List.Forall₂ (fun (built : Built) (e : (Nat × Nat) × PropertyInfo) =>
      ∀ entity ∈ built.entities, e.1 = (0,entity.epc)) commonBuilt shared := by
    refine forall₂_of_common (mapM_eq_ok.mp hcommon) (mapM_eq_ok.mp hshared) ?_
    intro prop built e hbuilt he entity hentity
    obtain ⟨epc,hepc,hkey⟩ := key_of_scanned he
    obtain ⟨epc',hepc',hfrom⟩ := Sources.commonProperty_spec hbuilt
    cases hepc.symm.trans hepc'
    rw [hkey,← (hfrom.ofProperty.scope _ (List.mem_map_of_mem hentity)).1]
  obtain ⟨e,he,hkey⟩ := exists_mem_zip hkeys hone
  rw [Dict.mem_keys_ofPairs,List.map_append,List.mem_append]
  exact Or.inl (List.mem_map.mpr ⟨e,(List.of_mem_zip he).2,hkey entity hentity⟩)

/-! ### Coverage -/

/-- Which properties of a class are scanned. -/
theorem scanProperty_spec {sources : Sources} {common : List Epc} {file : DeviceFile} {prop : MraEntry}
    {result : Option ((Nat × Nat) × PropertyInfo)} (h : sources.scanProperty common file prop = .ok result) :
    ∃ epc, hexInt prop.epc = .ok epc ∧
      ((∃ entry, result = some entry ∧ entry.1 = (file.classCode,epc) ∧
          (epc ∈ common → ∃ entity used, sources.temporalEntity file.classCode prop.toPropertyData =
            .ok (some entity,used))) ∨
        result = none ∧ epc ∈ common ∧ ∃ used, sources.temporalEntity file.classCode prop.toPropertyData =
          .ok (none,used)) := by
  obtain ⟨epc,hepc,h⟩ := bind_eq_ok.mp h
  refine ⟨epc,hepc,?_⟩
  have hscanned : ∀ {entry : (Nat × Nat) × PropertyInfo},
      scanned sources.definitions file.className.2 file.classCode prop = .ok entry →
        entry.1 = (file.classCode,epc) := by
    intro entry hentry
    obtain ⟨epc',hepc',hkey⟩ := key_of_scanned hentry
    cases hepc.symm.trans hepc'
    exact hkey
  by_cases hcommon : epc ∈ common
  · rw [if_pos hcommon] at h
    obtain ⟨entity,hentity,h⟩ := bind_eq_ok.mp h
    rw [map_eq_ok] at hentity
    obtain ⟨⟨found,used⟩,htemporal,rfl⟩ := hentity
    dsimp only at h
    cases found with
    | none =>
      rw [if_pos ⟨hcommon,rfl⟩] at h
      cases h
      exact Or.inr ⟨rfl,hcommon,used,htemporal⟩
    | some entity =>
      rw [if_neg fun hboth => nomatch hboth.2] at h
      obtain ⟨entry,hentry,rfl⟩ := map_eq_ok.mp h
      exact Or.inl ⟨entry,rfl,hscanned hentry,fun _ => ⟨entity,used,htemporal⟩⟩
  · rw [if_neg hcommon] at h
    obtain ⟨entity,_,h⟩ := bind_eq_ok.mp h
    dsimp only at h
    rw [if_neg fun hboth => hcommon hboth.1] at h
    obtain ⟨entry,hentry,rfl⟩ := map_eq_ok.mp h
    exact Or.inl ⟨entry,rfl,hscanned hentry,fun hmem => absurd hmem hcommon⟩

/-- The property of an entity, and whether it is a date or a time. -/
theorem property_of_entity {sources : Sources} {common : List Epc} {file : DeviceFile}
    {built : DeviceBuild × List Epc × List (Nat × Epc)} (h : sources.deviceBuild common file = .ok built)
    {entity : BuildEntity} (hentity : entity ∈ built.1.entities) :
    ∃ prop ∈ file.elProperties.filter MraEntry.latest, hexInt prop.epc = .ok entity.epc ∧
      ∃ found used, sources.temporalEntity file.classCode prop.toPropertyData = .ok (found,used) ∧
        (entity.temporal = none ↔ found = none) := by
  obtain ⟨_,_,properties,_,hproperties,hentities,_⟩ := Sources.read_of_deviceBuild h
  rw [hentities] at hentity
  obtain ⟨one,hone,hentity⟩ := List.mem_flatMap.mp hentity
  obtain ⟨prop,hprop,hbuilt⟩ := (mem_iff_of_mapM hproperties).mp hone
  obtain ⟨epc,hepc,hfrom⟩ := Sources.deviceProperty_spec hbuilt
  obtain ⟨_,_,hbecomes⟩ := becomes_of_deviceProperty hbuilt
  refine ⟨prop,hprop,?_,?_⟩
  · rw [hepc,← (hfrom.ofProperty.scope _ (List.mem_map_of_mem hentity)).1]
  · cases hbecomes with
    | temporal htemporal =>
      cases List.mem_singleton.mp hentity
      refine ⟨_,_,htemporal,?_⟩
      obtain ⟨parsed,_,hbuild⟩ := bind_eq_ok.mp htemporal
      obtain ⟨temporal,states,rfl,_⟩ := temporal_of_build hbuild
      exact ⟨nofun,nofun⟩
    | nothing | tree => cases hentity
    | object htemporal _ hentities =>
      obtain ⟨source,hsource,rfl⟩ := List.mem_map.mp hentity
      exact ⟨_,_,htemporal,iff_of_true (temporal_of_object hentities source hsource) rfl⟩
    | flat htemporal _ _ hflat =>
      cases List.mem_singleton.mp hentity
      exact ⟨_,_,htemporal,iff_of_true (temporal_of_flat hflat) rfl⟩

/-- Properties of the latest version that have one EPC are the same. -/
theorem eq_of_epc {properties : List MraEntry} (hdistinct : DistinctEpcs properties) {epcs : List Epc}
    (hepcs : (properties.filter MraEntry.latest).mapM (fun prop => hexInt prop.epc) = .ok epcs) {prop other : MraEntry}
    (hprop : prop ∈ properties.filter MraEntry.latest) (hother : other ∈ properties.filter MraEntry.latest)
    (h : hexInt prop.epc = hexInt other.epc) : prop = other := by
  have hnodup : ((properties.filter MraEntry.latest).map fun prop => hexInt prop.epc).Nodup := by
    rw [map_of_mapM hepcs]
    exact (hdistinct epcs hepcs).map fun _ _ heq => by cases heq; rfl
  exact List.inj_on_of_nodup_map hnodup hprop hother h

/-- The EPCs of the superclass are those that the scan shares. -/
theorem commonEpcs_of_scan (hgenerate : inputs.generate = .ok generated) {shared : Current}
    (hshared : (inputs.superclass.filter MraEntry.latest).mapM (scanned inputs.definitions name 0) = .ok shared) :
    (shared.map fun e => e.1.2) = generated.commonEpcs ∧ ∀ e ∈ shared, e.1.1 = 0 := by
  obtain ⟨_,_,_,_,hcommon,_⟩ := read_of_generate hgenerate
  constructor
  · have hsame : List.Forall₂ (fun (e : (Nat × Nat) × PropertyInfo) (epc : Epc) => e.1.2 = epc) shared
        generated.commonEpcs := by
      refine forall₂_of_common (mapM_eq_ok.mp hshared) (mapM_eq_ok.mp hcommon) ?_
      intro prop e epc he hepc
      obtain ⟨epc',hepc',hkey⟩ := key_of_scanned he
      cases hepc.symm.trans hepc'
      rw [hkey]
    rw [← List.forall₂_eq_eq_eq,List.forall₂_map_left_iff]
    exact hsame
  · intro e he
    obtain ⟨prop,_,hprop⟩ := (mem_iff_of_mapM hshared).mp he
    obtain ⟨_,_,hkey⟩ := key_of_scanned hprop
    rw [hkey]

/-- The rows of a class are those of its files. -/
theorem mem_scan (hscan : inputs.scanMraProperties name = .ok current) (hgenerate : inputs.generate = .ok generated) :
    ∃ kinds, loadTemporalKinds inputs.temporalKinds = .ok kinds ∧
      let sources : Sources := ⟨inputs.definitions,inputs.maximumOfHour,kinds,inputs.roles⟩
      (∀ file ∈ inputs.files, ∀ prop ∈ file.elProperties.filter MraEntry.latest,
        ∃ result, sources.scanProperty generated.commonEpcs file prop = .ok result) ∧
      ∀ classCode epc, classCode ≠ 0 → ((classCode,epc) ∈ current.map Prod.fst ↔
        ∃ file ∈ inputs.files, ∃ prop ∈ file.elProperties.filter MraEntry.latest, ∃ entry,
          sources.scanProperty generated.commonEpcs file prop = .ok (some entry) ∧ entry.1 = (classCode,epc)) := by
  obtain ⟨kinds,shared,own,hkinds,hshared,hown,rfl⟩ := shared_of_scan hscan
  obtain ⟨hcommon,hzero⟩ := commonEpcs_of_scan hgenerate hshared
  rw [hcommon] at hown
  refine ⟨kinds,hkinds,?_,?_⟩
  · intro file hfile prop hprop
    obtain ⟨results,_,hresults⟩ := exists_mem_zip (mapM_eq_ok.mp hown) hfile
    obtain ⟨result,_,hresult⟩ := exists_mem_zip (mapM_eq_ok.mp hresults) hprop
    exact ⟨result,hresult⟩
  · intro classCode epc hclass
    rw [Dict.mem_keys_ofPairs,List.map_append,List.mem_append]
    constructor
    · rintro (hkey | hkey)
      · obtain ⟨e,he,hkey⟩ := List.mem_map.mp hkey
        have hzero := hzero e he
        rw [hkey] at hzero
        exact absurd hzero hclass
      · obtain ⟨entry,hentry,hkey⟩ := List.mem_map.mp hkey
        obtain ⟨result,hresult,rfl⟩ := List.mem_filterMap.mp hentry
        obtain ⟨results,hresults,hresult⟩ := List.mem_flatten.mp hresult
        obtain ⟨file,hfile,hresults⟩ := (mem_iff_of_mapM hown).mp hresults
        obtain ⟨prop,hprop,hresult⟩ := (mem_iff_of_mapM hresults).mp hresult
        exact ⟨file,hfile,prop,hprop,entry,hresult,hkey⟩
    · rintro ⟨file,hfile,prop,hprop,entry,hresult,hkey⟩
      obtain ⟨results,hzip,hresults⟩ := exists_mem_zip (mapM_eq_ok.mp hown) hfile
      have hmem := (mem_iff_of_mapM hresults).mpr ⟨prop,hprop,hresult⟩
      refine Or.inr (List.mem_map.mpr ⟨entry,List.mem_filterMap.mpr ⟨some entry,?_,rfl⟩,hkey⟩)
      exact List.mem_flatten.mpr ⟨results,(List.of_mem_zip hzip).2,hmem⟩

/-- An entity of a class stands under a property of the scan exactly if the superclass does not have its EPC, or if it
is a date or a time. -/
theorem covered_iff (h : inputs.WellFormed) (hfiles : (inputs.files.map DeviceFile.classCode).Nodup)
    (hscan : inputs.scanMraProperties name = .ok current) (hgenerate : inputs.generate = .ok generated)
    {classCode : Nat} (hclass : classCode ≠ 0) {entity : BuildEntity} (hentity : entity ∈ generated.entities classCode) :
    (classCode,entity.epc) ∈ current.map Prod.fst ↔
      (entity.epc ∈ generated.commonEpcs → entity.temporal ≠ none) := by
  obtain ⟨kinds,hkinds,hall,hmem⟩ := mem_scan hscan hgenerate
  obtain ⟨device,hdevice,hentity⟩ := device_of_entity hentity
  obtain ⟨kinds',hkinds',file,hfile,built,rfl,rfl,hbuilt,_⟩ := file_of_device hgenerate hdevice
  cases hkinds.symm.trans hkinds'
  obtain ⟨prop,hprop,hepc,found,used,htemporal,hplain⟩ := property_of_entity hbuilt hentity
  rw [hmem _ _ hclass]
  constructor
  · rintro ⟨file',hfile',prop',hprop',entry,hresult,hkey⟩ hcommon hnone
    obtain ⟨epc,hepc',⟨entry',heq,hkey',hfound⟩ | ⟨hnone,_⟩⟩ := scanProperty_spec hresult
    · cases heq
      obtain ⟨hclass',rfl⟩ := Prod.ext_iff.mp (hkey'.symm.trans hkey)
      cases List.inj_on_of_nodup_map hfiles hfile' hfile hclass'
      obtain ⟨epcs,_,_,hepcs,_⟩ := Sources.read_of_deviceBuild hbuilt
      cases eq_of_epc (h.files file hfile) hepcs hprop' hprop (hepc'.trans hepc.symm)
      obtain ⟨entity',used',hentity'⟩ := hfound hcommon
      cases hentity'.symm.trans htemporal
      cases hplain.mp hnone
    · cases hnone
  · intro hcovered
    obtain ⟨result,hresult⟩ := hall file hfile prop hprop
    obtain ⟨epc,hepc',⟨entry,rfl,hkey,_⟩ | ⟨_,hcommon,used',hnone⟩⟩ := scanProperty_spec hresult
    · cases hepc.symm.trans hepc'
      exact ⟨file,hfile,prop,hprop,entry,hresult,hkey⟩
    · cases hepc.symm.trans hepc'
      cases htemporal.symm.trans hnone
      exact absurd (hplain.mpr rfl) (hcovered hcommon)

section Rerun
variable {W : Type} {ops : Worksheet W} {sheet blank : W} {roles : RoleMap}

/-- Roles that agree at the properties of the scan give the same registry, if every entity stands under one of them. -/
theorem generate_of_scanned (hscan : inputs.scanMraProperties name = .ok current)
    (hgenerate : inputs.generate = .ok generated)
    (hcovered : ∀ classCode, ∀ entity ∈ generated.entities classCode, (classCode,entity.epc) ∈ current.map Prod.fst)
    (hagree : ∀ key ∈ current.map Prod.fst, Dict.get (roleKey key) roles = Dict.get (roleKey key) inputs.roles) :
    ({inputs with roles} : Inputs).generate = .ok generated ∧
      ({inputs with roles} : Inputs).build = inputs.build := by
  have hsame : ({inputs with roles} : Inputs).generate = .ok generated :=
    generate_of_agree hgenerate (fun entity hentity => hagree _ (covered_common hscan hgenerate entity hentity))
      fun classCode entity hentity => hagree _ (hcovered classCode entity hentity)
  refine ⟨hsame,?_⟩
  rw [build,build,hsame,hgenerate]
  rfl

/-- If every entity stands under a property of the scan, a run of the script that moves no row changes nothing that is
generated. -/
theorem build_synced (h : ops.Lawful) (hmax : 1 ≤ ops.maxRow sheet)
    (hscan : inputs.scanMraProperties name = .ok current)
    (hload : loadPropertyRoles (ops.rowsOf sheet) = .ok inputs.roles) (hgenerate : inputs.generate = .ok generated)
    (hcovered : ∀ classCode, ∀ entity ∈ generated.entities classCode, (classCode,entity.epc) ∈ current.map Prod.fst)
    (hgone : GoneLast (buildRows current (ops.loadExistingRows sheet)) (ops.rowsOf sheet)) :
    ∃ roles, loadPropertyRoles (ops.rowsOf
        (ops.updateInPlace (buildRows current (ops.loadExistingRows sheet)) sheet)) = .ok roles ∧
      ({inputs with roles} : Inputs).generate = .ok generated ∧
        ({inputs with roles} : Inputs).build = inputs.build := by
  obtain ⟨roles,hroles,hagree⟩ := Worksheet.roles_synced h (nodup_of_scan hscan) hmax hgone hload
  exact ⟨roles,hroles,generate_of_scanned hscan hgenerate hcovered hagree⟩

/-- The same holds of a sheet that is rebuilt for other columns, if it had each property once. The cells of a column
that it did not have are empty. -/
theorem build_rebuilt (h : ops.Lawful) (hblank : ops.maxRow blank = 1)
    (hscan : inputs.scanMraProperties name = .ok current)
    (hload : loadPropertyRoles (ops.rowsOf sheet) = .ok inputs.roles) (hgenerate : inputs.generate = .ok generated)
    (hcovered : ∀ classCode, ∀ entity ∈ generated.entities classCode, (classCode,entity.epc) ∈ current.map Prod.fst)
    (htext : TextRoles (ops.rowsOf sheet)) (honce : ((ops.rowsOf sheet).filterMap rowKey).Nodup) :
    ∃ roles, loadPropertyRoles (ops.rowsOf
        (ops.rebuild (buildRows current (ops.loadExistingRows sheet)) blank)) = .ok roles ∧
      ({inputs with roles} : Inputs).generate = .ok generated ∧
        ({inputs with roles} : Inputs).build = inputs.build := by
  obtain ⟨roles,hroles,hagree⟩ := Worksheet.roles_rebuilt h (nodup_of_scan hscan) hblank htext honce hload
  exact ⟨roles,hroles,generate_of_scanned hscan hgenerate hcovered hagree⟩

end Rerun

/-! ### The roles of an air conditioner -/

def airConditionerCurrent : Current := (airConditioner.scanMraProperties "スーパークラス").toOption.getD []

theorem airConditioner_scan : airConditioner.scanMraProperties "スーパークラス" = .ok airConditionerCurrent :=
  eq_ok_getD (by decide +kernel) _

def temperatureInfo : PropertyInfo :=
  ⟨"家庭用エアコン","Set temperature value","温度設定値","","required","optional","","uint8"⟩

/-- The set temperature has a role, and the row below it is of a property that is gone. -/
def airConditionerSheet : Grid :=
  Grid.ofRows [buildRow 0x0130 0xB3 temperatureInfo (some fun _ => "setting"),buildRow 0x0130 0xBF temperatureInfo none]

theorem airConditioner_covered : ∀ classCode, ∀ entity ∈ airConditionerMra.entities classCode,
    (classCode,entity.epc) ∈ airConditionerCurrent.map Prod.fst := by
  intro classCode entity hentity
  have hall : ∀ e ∈ airConditionerMra.devices, ∀ entity ∈ e.2.entities,
      (e.1,entity.epc) ∈ airConditionerCurrent.map Prod.fst := by decide +kernel
  obtain ⟨device,hdevice,hentity⟩ := device_of_entity hentity
  exact hall _ (Dict.mem_of_get hdevice) entity hentity

theorem covered_iff_temperature : (0x0130,0xB3) ∈ airConditionerCurrent.map Prod.fst := by
  obtain ⟨entity,hentity,hepc⟩ : ∃ entity ∈ airConditionerMra.entities 0x0130, entity.epc = 0xB3 := by decide +kernel
  have hcovered := (covered_iff airConditioner_wellFormed (by decide) airConditioner_scan airConditioner_generate
    (by decide) hentity).mpr
  rw [hepc] at hcovered
  apply hcovered
  intro hcommon
  have hnot : 0xB3 ∉ airConditionerMra.commonEpcs := by decide +kernel
  exact absurd hcommon hnot

theorem build_synced_temperature :
    let rows := buildRows airConditionerCurrent (Grid.ops.loadExistingRows airConditionerSheet)
    ∃ roles, loadPropertyRoles (Grid.ops.rowsOf (Grid.ops.updateInPlace rows airConditionerSheet)) = .ok roles ∧
      ({airConditioner with roles} : Inputs).generate = .ok airConditionerMra ∧
        ({airConditioner with roles} : Inputs).build = airConditioner.build := by
  intro rows
  apply build_synced Grid.lawful (by decide) airConditioner_scan (by decide +kernel) airConditioner_generate
    airConditioner_covered
  intro i j hi hj
  obtain ⟨key,_,hkey,_⟩ := stays_iff.mp hj
  obtain ⟨_,hrow,_⟩ := row_of_tracked hkey
  have hlt : j < 2 := (List.getElem?_eq_some_iff.mp hrow).1
  have hstays : stays rows (Grid.ops.rowsOf airConditionerSheet) 1 = false := by decide +kernel
  have hzero : gone rows (Grid.ops.rowsOf airConditionerSheet) 0 = false := by decide +kernel
  have hj0 : j ≠ 1 := by
    rintro rfl
    cases hstays.symm.trans hj
  have hi0 : i ≠ 0 := by
    rintro rfl
    cases hzero.symm.trans hi
  omega

theorem build_rebuilt_temperature :
    let rows := buildRows airConditionerCurrent (Grid.ops.loadExistingRows airConditionerSheet)
    ∃ roles, loadPropertyRoles (Grid.ops.rowsOf (Grid.ops.rebuild rows (Grid.ofRows []))) = .ok roles ∧
      ({airConditioner with roles} : Inputs).generate = .ok airConditionerMra ∧
        ({airConditioner with roles} : Inputs).build = airConditioner.build := by
  intro rows
  apply build_rebuilt Grid.lawful rfl airConditioner_scan (by decide +kernel) airConditioner_generate
    airConditioner_covered
  · intro row hrow
    have hcells : ∀ row ∈ Grid.ops.rowsOf airConditionerSheet, row .role = .text "setting" ∨ row .role = .text "" := by
      decide +kernel
    obtain hrole | hrole := hcells row hrow
    · exact Or.inr ⟨_,hrole⟩
    · exact Or.inr ⟨_,hrole⟩
  · decide +kernel

end Inputs
end Pyhems.Generator

import Pyhems.Generator.ObjectEntities
import Pyhems.Generator.RoleSheet
import Pyhems.Generator.Temporal

/-! The definitions that are built from the files of the MRA: the entities that all classes share, and for each
class its own ones, with a value tree for what no flat entity can represent. -/
namespace Pyhems.Generator
open Library Codec
open Protocol (hexUpper)
open Get (Epc)

/-! ### Roles -/

inductive PropertyRole where
  | primary
  | instantaneous
  | setting
  | status
  | specification
  deriving DecidableEq, Repr

def propertyRole : String → Except Failure PropertyRole
  | "primary" => .ok .primary
  | "instantaneous" => .ok .instantaneous
  | "setting" => .ok .setting
  | "status" => .ok .status
  | "specification" => .ok .specification
  | text => .error (.valueError (quoted text ++ " is not a valid PropertyRole"))

/-- `EntityDefinition` with its role. -/
structure BuildEntity extends EntityDefinition where
  role : PropertyRole := .primary
  deriving DecidableEq, Repr

abbrev RoleMap := List (RoleKey × PropertyRole)

/-- `text.strip().lower()`, where only letters of ASCII have a lower case. -/
def strippedLower (text : String) : String := String.ofList ((strip isSpace text).map Char.toLower)

/-- The role of a row, unless its cell is blank. -/
def roleOf (row : Row) : Except Failure (Option (RoleKey × PropertyRole)) :=
  match rowKey row,row .role with
  | none, _ | _, .empty | _, .text "" | _, .flag false | _, .number 0 => .ok none
  | some key, cell => do pure (some (key,← propertyRole (strippedLower cell.str)))

/-- `_load_property_roles`, for the rows below the header. -/
def loadPropertyRoles (rows : List Row) : Except Failure RoleMap := do
  pure (Dict.ofPairs ((← rows.mapM roleOf).filterMap id))

def applyRole (roles : RoleMap) (classCode : Nat) (entity : EntityDefinition) : BuildEntity :=
  {entity with role := (Dict.get (roleKey (classCode,entity.epc)) roles).getD .primary}

/-! ### Files -/

/-- A property of an MRA file; `latest` is `validRelease.to == "latest"`. -/
structure MraEntry extends PropertyData where
  latest : Bool
  atomic : Option String := none

structure DeviceFile where
  classCode : Nat
  shortName : String
  className : String × String
  elProperties : List MraEntry

def isStructuredDataType (prop : PropertyData) (definitions : Definitions) : Except Failure Bool := do
  let resolved ← (prop.data.oneOf.getD [prop.data]).mapM fun candidate => resolveRef candidate definitions
  pure (resolved.any fun spec => decide (spec.type = some .object ∨ spec.type = some .array))

/-- `_validate_short_name`, for a name that is a text. -/
def validateShortName (value : String) (classCode : Nat) (custom : Bool) : Except Failure String :=
  let inner := fun c : Char => decide ('a' ≤ c ∧ c ≤ 'z' ∨ 'A' ≤ c ∧ c ≤ 'Z' ∨ '0' ≤ c ∧ c ≤ '9')
  let source := if custom then "Custom definition" else "MRA"
  let field := if custom then "short_name" else "shortName"
  match value.toList with
  | first :: others =>
    if 'a' ≤ first ∧ first ≤ 'z' ∧ others.all inner then .ok value
    else .error (.valueError (s!"{source} class 0x{hexUpper 4 classCode} {field} must be a " ++
      "lower-camel-case identifier"))
  | [] => .error (.valueError (s!"{source} class 0x{hexUpper 4 classCode} {field} must be a " ++
      "lower-camel-case identifier"))

/-! ### Builds -/

/-- `_DeviceBuild`, without the collection bindings. -/
structure DeviceBuild where
  shortName : String
  nameEn : String
  nameJa : String
  entities : List BuildEntity
  structuredValues : List (Epc × PropertyValueDefinition) := []

/-- `_DefinitionsBuild`, without the versions and the manufacturers. -/
structure DefinitionsBuild where
  common : List BuildEntity
  devices : List (Nat × DeviceBuild)
  mraEpcs : List (Nat × List Epc)
  commonEpcs : List Epc

/-- What a property of a file becomes, and the temporal kinds that were used for it. -/
structure Built where
  entities : List BuildEntity := []
  structured : Option (Epc × PropertyValueDefinition) := none
  used : List (Nat × Epc) := []

/-- What the build reads besides the properties. -/
structure Sources where
  definitions : Definitions
  maximumOfHour : Spec → Option Nat
  kinds : TemporalKinds
  roles : RoleMap

namespace Sources
variable (sources : Sources)

def temporalEntity (classCode : Nat) (prop : PropertyData) :
    Except Failure (Option EntityDefinition × List (Nat × Epc)) := do
  let parsed ← parseMraProperty prop sources.definitions
  buildTemporalEntity sources.maximumOfHour classCode parsed prop.data sources.definitions sources.kinds

/-- The body of the loop over the properties of the superclass. -/
def commonProperty (prop : MraEntry) : Except Failure Built := do
  let parsed ← parseMraProperty prop.toPropertyData sources.definitions
  let (entity,used) ← sources.temporalEntity 0 prop.toPropertyData
  match entity with
  | some entity => pure {entities := [applyRole sources.roles 0 entity], used}
  | none =>
    if ← hasTemporalAlternative prop.data sources.definitions then pure {used}
    else
      let entity ← buildEntityFromProperty 0 parsed
      pure {entities := (entity.map (applyRole sources.roles 0)).toList, used}

/-- The body of the loop over the properties of a class. -/
def deviceProperty (classCode : Nat) (common atomicPairedEpcs : List Epc) (prop : MraEntry) :
    Except Failure Built := do
  let epc ← hexInt prop.epc
  let (entity,used) ← sources.temporalEntity classCode prop.toPropertyData
  match entity with
  | some entity => pure {entities := [applyRole sources.roles classCode entity], used}
  | none =>
    if ← hasTemporalAlternative prop.data sources.definitions then pure {used}
    else if epc ∈ common then pure {used}
    else
      match ← buildEntitiesFromObjectProperty classCode epc prop.toPropertyData sources.definitions
          atomicPairedEpcs with
      | some entities => pure {entities := entities.map (applyRole sources.roles classCode), used}
      | none => do
        let parsed ← parseMraProperty prop.toPropertyData sources.definitions
        match ← buildEntityFromProperty classCode parsed with
        | some entity => pure {entities := [applyRole sources.roles classCode entity], used}
        | none =>
          if ← isStructuredDataType prop.toPropertyData sources.definitions then
            let value ← parseValueSpec sources.definitions recursionLimit prop.data
            pure {structured := some (epc,value), used}
          else pure {used}

/-- A property and the one that it is paired with. -/
def atomicPair (prop : MraEntry) : Except Failure (List Epc) :=
  match prop.atomic with
  | some atomic => do pure [← hexInt prop.epc,← hexInt atomic]
  | none => .ok []

/-- The body of the loop over the files, with the EPCs of the class. -/
def deviceBuild (common : List Epc) (file : DeviceFile) :
    Except Failure (DeviceBuild × List Epc × List (Nat × Epc)) := do
  let shortName ← validateShortName file.shortName file.classCode false
  let latest := file.elProperties.filter MraEntry.latest
  let mraEpcs ← latest.mapM fun prop => hexInt prop.epc
  let atomicPairedEpcs ← file.elProperties.mapM atomicPair
  let built ← latest.mapM (sources.deviceProperty file.classCode common atomicPairedEpcs.flatten)
  pure ({
    shortName
    nameEn := file.className.1
    nameJa := file.className.2
    entities := built.flatMap Built.entities
    structuredValues := Dict.ofPairs (built.filterMap Built.structured) },
    mraEpcs,built.flatMap Built.used)

end Sources

/-- `sorted(pairs)`, as `repr` writes it. -/
def sortedPairs (pairs : List (Nat × Epc)) : String :=
  let sorted := pairs.insertionSort fun a b => keyLe (roleKey a) (roleKey b)
  "[" ++ ", ".intercalate (sorted.map fun pair => s!"({pair.1}, {pair.2})") ++ "]"

/-- `generate_definitions`, for the properties of the superclass and the files of the classes. -/
def generateDefinitions (definitions : Definitions) (maximumOfHour : Spec → Option Nat)
    (temporalKinds : List TemporalEntry) (roles : RoleMap) (superclass : List MraEntry) (files : List DeviceFile) :
    Except Failure DefinitionsBuild := do
  let kinds ← loadTemporalKinds temporalKinds
  let sources : Sources := {definitions, maximumOfHour, kinds, roles}
  let latest := superclass.filter MraEntry.latest
  let commonEpcs ← latest.mapM fun prop => hexInt prop.epc
  let commonBuilt ← latest.mapM sources.commonProperty
  let common := commonBuilt.flatMap Built.entities
  let built ← files.mapM (sources.deviceBuild (common.map fun entity => entity.epc))
  let used := commonBuilt.flatMap Built.used ++ built.flatMap fun e => e.2.2
  let unused := (kinds.map Prod.fst).filter fun key => decide (key ∉ used)
  if unused ≠ [] then
    throw (.valueError ("Unused temporal classifications: " ++ sortedPairs unused))
  else
    pure {
      common
      devices := Dict.ofPairs ((files.map DeviceFile.classCode).zip (built.map Prod.fst))
      mraEpcs := Dict.ofPairs ((files.map DeviceFile.classCode).zip (built.map fun e => e.2.1))
      commonEpcs }

end Pyhems.Generator

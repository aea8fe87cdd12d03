import Pyhems.Generator.Generated

/-! Custom definitions. An entry of the file patches an entity of the MRA or defines one of its own; it is checked
before anything is built of it. A mapping is a record of the keys that the script knows, each there or not, with the
other keys it has. -/
namespace Pyhems.Generator
open Library Codec
open Protocol (hexUpper)
open Get (Epc)

/-! ### The file -/

/-- A value where a scalar is expected; `other` is a list or a mapping. -/
inductive Scalar where
  | null
  | bool (b : Bool)
  | int (n : Int)
  | float (q : ℚ)
  | text (s : String)
  | other
  deriving DecidableEq

structure EnumEntry where
  edt : Option Scalar := none
  key : Option Scalar := none
  nameEn : Option String := none
  nameJa : Option String := none
  unknown : List String := []

/-- The value of `enum_values`; an entry that is no mapping is none. -/
inductive EnumField where
  | null
  | entries (values : List (Option EnumEntry))
  | other (truthy : Bool)

structure PropertyEntry where
  mode : Option Scalar := none
  epc : Option Scalar := none
  manufacturerCode : Option Scalar := none
  byteOffset : Option Scalar := none
  nameEn : Option String := none
  nameJa : Option String := none
  descriptionEn : Option (Option String) := none
  descriptionJa : Option (Option String) := none
  get : Option Scalar := none
  set : Option Scalar := none
  format : Option Scalar := none
  unit : Option (Option String) := none
  minimum : Option Scalar := none
  maximum : Option Scalar := none
  multipleOf : Option Scalar := none
  role : Option Scalar := none
  enumValues : Option EnumField := none
  unknown : List String := []

structure ClassEntry where
  nameEn : Option Scalar := none
  nameJa : Option Scalar := none
  shortName : Option Scalar := none
  /-- None if they are missing or no list; an entry that is no mapping is none. -/
  properties : Option (List (Option PropertyEntry)) := none
  unknown : List String := []

/-! ### Values -/

/-- The value of a number that is no truth value. -/
def Scalar.number : Scalar → Option ℚ
  | .int n => some n
  | .float q => some q
  | _ => none

/-- A text that is not empty. -/
def Scalar.name : Scalar → Option String
  | .text s => if s = "" then none else some s
  | _ => none

/-- `f"{n:0widthX}"`. -/
def hexUpperInt (width : Nat) : Int → String
  | .ofNat n => hexUpper width n
  | .negSucc n => "-" ++ hexUpper (width-1) (n+1)

/-- `sorted(texts)`, as `repr` writes it. -/
def sortedTexts (texts : List String) : String :=
  "[" ++ ", ".intercalate ((texts.insertionSort (· ≤ ·)).map quoted) ++ "]"

def customError (classCode : Nat) (entry : PropertyEntry) (message : String) : Failure :=
  let epcText :=
    match entry.epc with
    | some (.int n) => s!" EPC 0x{hexUpperInt 2 n}"
    | some (.bool b) => s!" EPC 0x{hexUpper 2 b.toNat}"
    | _ => ""
  .valueError s!"Custom definition class 0x{hexUpper 4 classCode}{epcText}: {message}"

def validateCode (value : Option Scalar) (maximum : Nat) (field : String) (classCode : Nat) (entry : PropertyEntry) :
    Except Failure Nat :=
  match value with
  | some (.int (.ofNat n)) =>
    if n ≤ maximum then .ok n
    else .error (customError classCode entry s!"{field} must be 0x0-{hexUpper 1 maximum}")
  | _ => .error (customError classCode entry s!"{field} must be 0x0-{hexUpper 1 maximum}")

def validateCustomClassCode (value : Scalar) (source : String) : Except Failure Nat :=
  match value with
  | .int (.ofNat n) =>
    if 0xFFFF < n then .error (.valueError s!"{source} class_code must be 0x0-FFFF")
    else if n/256 ∈ [0,1,2,3,4,5,6,0x0F] then .ok n
    else .error (.valueError s!"{source} class 0x{hexUpper 4 n} must use class group 0x00-0x06 or 0x0F")
  | _ => .error (.valueError s!"{source} class_code must be 0x0-FFFF")

def manufacturerField (classCode : Nat) (entry : PropertyEntry) : Except Failure (Option Nat) :=
  match entry.manufacturerCode with
  | none => .ok none
  | some value => do pure (some (← validateCode (some value) 0xFFFFFF "manufacturer_code" classCode entry))

def validateCustomProperty (classCode : Nat) (entry : PropertyEntry) : Except Failure (Epc × Option Nat) := do
  let epc ← validateCode entry.epc 0xFF "epc" classCode entry
  let manufacturerCode ← manufacturerField classCode entry
  let required := decide (classCode/256 = 0x0F ∨ 0xF0 ≤ epc)
  if epc < 0x80 then
    throw (customError classCode entry "epc must be in the range 0x80-0xEF or 0xF0-0xFF")
  else if required ∧ manufacturerCode = none then
    throw (customError classCode entry "manufacturer_code is required for this EPC")
  else if ¬ required ∧ manufacturerCode ≠ none then
    throw (customError classCode entry "manufacturer_code is not allowed for this EPC")
  else pure (epc,manufacturerCode)

def validateAccess (value : Option Scalar) (field : String) (classCode : Nat) (entry : PropertyEntry) :
    Except Failure AccessRule :=
  match value with
  | some (.text "required") => .ok .required
  | some (.text "required_c") => .ok .requiredC
  | some (.text "required_o") => .ok .requiredO
  | some (.text "optional") => .ok .optional
  | some (.text "notApplicable") => .ok (.other "notApplicable")
  | _ => .error (customError classCode entry s!"{field} has an invalid access rule")

def numericFormats : List String := ["uint8","int8","uint16","int16","uint32","int32"]

/-- The number of a field, if the field is there. -/
def numericField (value : Option Scalar) (field : String) (classCode : Nat) (entry : PropertyEntry) :
    Except Failure (Option ℚ) :=
  match value with
  | none => .ok none
  | some value =>
    match value.number with
    | some q => .ok (some q)
    | none => .error (customError classCode entry s!"{field} must be numeric")

def formatField (value : Option Scalar) (classCode : Nat) (entry : PropertyEntry) : Except Failure (Option String) :=
  match value with
  | none => .ok none
  | some (.text format) =>
    if format ∈ numericFormats then .ok (some format)
    else .error (customError classCode entry "format is not supported")
  | some .other => .error (.typeError "unhashable type")
  | some _ => .error (customError classCode entry "format is not supported")

structure NumericFields where
  format : Option String
  minimum : Option ℚ
  maximum : Option ℚ
  multipleOf : Option ℚ

/-- The limits of a number do not cross, and its step is positive. -/
structure NumericFields.Valid (fields : NumericFields) : Prop where
  ordered : ∀ least ∈ fields.minimum, ∀ greatest ∈ fields.maximum, least ≤ greatest
  step : ∀ step ∈ fields.multipleOf, 0 < step

/-- The comparisons of `_validate_numeric_fields`. -/
def validateNumbers (fields : NumericFields) (classCode : Nat) (entry : PropertyEntry) : Except Failure Unit :=
  match fields.minimum,fields.maximum,fields.multipleOf with
  | some minimum,some maximum,multipleOf =>
    if maximum < minimum then .error (customError classCode entry "minimum must not exceed maximum")
    else if multipleOf.any (· ≤ 0) then .error (customError classCode entry "multipleOf must be greater than zero")
    else .ok ()
  | _,_,multipleOf =>
    if multipleOf.any (· ≤ 0) then .error (customError classCode entry "multipleOf must be greater than zero")
    else .ok ()

/-- `_validate_numeric_fields` of the fields of an entry. -/
def validateNumericFields (classCode : Nat) (entry : PropertyEntry) : Except Failure NumericFields := do
  let format ← formatField entry.format classCode entry
  let minimum ← numericField entry.minimum "minimum" classCode entry
  let maximum ← numericField entry.maximum "maximum" classCode entry
  let multipleOf ← numericField entry.multipleOf "multipleOf" classCode entry
  validateNumbers ⟨format,minimum,maximum,multipleOf⟩ classCode entry
  pure ⟨format,minimum,maximum,multipleOf⟩

/-! ### Patches -/

/-- `repr` of a key that is no text, as far as it is one of a scalar. -/
def Scalar.repr : Option Scalar → String
  | some (.text s) => quoted s
  | some (.bool b) => if b then "True" else "False"
  | some (.int n) => toString n
  | some (.float q) => toString q
  | some .other => "..."
  | some .null | none => "None"

/-- The body of the loop of `_apply_enum_patch`, with the values by key and the keys that were patched so far. -/
def enumPatchStep (byKey : List (String × EnumValue)) (classCode : Nat) (entry : PropertyEntry)
    (state : List (String × EnumValue) × List String) (patch : Option EnumEntry) :
    Except Failure (List (String × EnumValue) × List String) :=
  match patch with
  | none => .error (customError classCode entry "enum patch values may only contain key, name_en, and name_ja")
  | some patch =>
    if patch.edt ≠ none ∨ patch.unknown ≠ [] then
      .error (customError classCode entry "enum patch values may only contain key, name_en, and name_ja")
    else
      match patch.key with
      | some (.text key) =>
        match Dict.get key byKey with
        | none => .error (customError classCode entry s!"enum key {quoted key} does not exist")
        | some current =>
          if key ∈ state.2 then .error (customError classCode entry s!"duplicate enum key {quoted key}")
          else if patch.nameEn = none ∧ patch.nameJa = none then
            .error (customError classCode entry "enum patch must change a display name")
          else
            let value := {current with
              nameEn := patch.nameEn.getD current.nameEn
              nameJa := patch.nameJa.getD current.nameJa}
            .ok (Dict.insert key value state.1,state.2 ++ [key])
      | key => .error (customError classCode entry s!"enum key {Scalar.repr key} does not exist")

def applyEnumPatch (enumValues : List EnumValue) (values : EnumField) (classCode : Nat) (entry : PropertyEntry) :
    Except Failure (List EnumValue) :=
  match values with
  | .entries patches => do
    let byKey := Dict.ofPairs (enumValues.map fun value => (value.key,value))
    let (updated,patchOrder) ← patches.foldlM (enumPatchStep byKey classCode entry) (byKey,[])
    if patchOrder.length = byKey.length then pure (patchOrder.filterMap fun key => Dict.get key updated)
    else pure (enumValues.filterMap fun value => Dict.get value.key updated)
  | _ => .error (customError classCode entry "enum_values must be a list")

def PropertyEntry.changesNumber (entry : PropertyEntry) : Bool :=
  entry.format.isSome || entry.unit.isSome || entry.minimum.isSome || entry.maximum.isSome || entry.multipleOf.isSome

/-- The entry has a field of `_PATCH_FIELDS`. -/
def PropertyEntry.changes (entry : PropertyEntry) : Bool :=
  entry.changesNumber || entry.nameEn.isSome || entry.nameJa.isSome || entry.get.isSome || entry.set.isSome ||
    entry.descriptionEn.isSome || entry.descriptionJa.isSome || entry.role.isSome || entry.enumValues.isSome

/-- The role of an entry, or else the one there is. -/
def roleField (current : PropertyRole) : Option Scalar → Except Failure PropertyRole
  | none => .ok current
  | some (.text text) => propertyRole text
  | value => .error (.valueError (Scalar.repr value ++ " is not a valid PropertyRole"))

def statesField (current : List EnumValue) (classCode : Nat) (entry : PropertyEntry) :
    Except Failure (List EnumValue) :=
  match entry.enumValues with
  | none => .ok current
  | some values => applyEnumPatch current values classCode entry

/-- The check of the numbers of a patched entity, if one of them was patched. -/
def validatePatched (classCode : Nat) (entry : PropertyEntry) (patched : BuildEntity) : Except Failure Unit :=
  if entry.changesNumber then do
    let _ ← formatField (some (patched.format.elim .null .text)) classCode entry
    validateNumbers ⟨patched.format,patched.minimum,patched.maximum,
      if patched.multipleOf ≠ 1 then some patched.multipleOf else none⟩ classCode entry
  else .ok ()

def accessField (current : Bool) (value : Option Scalar) (field : String) (classCode : Nat) (entry : PropertyEntry) :
    Except Failure Bool :=
  match value with
  | none => .ok current
  | some value => do pure (isAccessible (← validateAccess (some value) field classCode entry))

/-- The body of the loop of `_apply_patch`, for the fields of the entry that were found to be numbers. -/
def patchEntity (classCode : Nat) (entry : PropertyEntry) (fields : NumericFields) (entity : BuildEntity) :
    Except Failure BuildEntity := do
  if entity.enumValues ≠ [] ∧ entry.changesNumber then
    throw (customError classCode entry "numeric fields may not patch an enum entity")
  else if entry.enumValues.isSome ∧ entity.enumValues = [] then
    throw (customError classCode entry "enum_values may only patch an enum entity")
  else
    let readable ← accessField entity.readable entry.get "get" classCode entry
    let writable ← accessField entity.writable entry.set "set" classCode entry
    let role ← roleField entity.role entry.role
    let enumValues ← statesField entity.enumValues classCode entry
    let patched := {entity with
      nameEn := entry.nameEn.getD entity.nameEn
      nameJa := entry.nameJa.getD entity.nameJa
      descriptionEn := entry.descriptionEn.getD entity.descriptionEn
      descriptionJa := entry.descriptionJa.getD entity.descriptionJa
      format := fields.format <|> entity.format
      unit := entry.unit.getD entity.unit
      minimum := fields.minimum <|> entity.minimum
      maximum := fields.maximum <|> entity.maximum
      multipleOf := fields.multipleOf.getD entity.multipleOf
      readable, writable, role, enumValues}
    validatePatched classCode entry patched
    pure patched

/-- The loop of `_apply_patch`. -/
def patchTargets (classCode : Nat) (entry : PropertyEntry) (fields : NumericFields) (target : BuildEntity → Bool)
    (entities : List BuildEntity) : Except Failure (List BuildEntity) :=
  entities.mapM fun entity =>
    if target entity then patchEntity classCode entry fields entity else .ok entity

/-- `_apply_patch`, for the entities of the class. -/
def applyPatch (mraEpcs commonEpcs : List Epc) (classCode : Nat) (entry : PropertyEntry)
    (entities : List BuildEntity) : Except Failure (List BuildEntity) := do
  if entry.manufacturerCode ≠ none then
    throw (customError classCode entry "patch entries may not specify manufacturer_code")
  let (epc,_) ← validateCustomProperty classCode entry
  if epc ∉ mraEpcs then throw (customError classCode entry "patch target is not an MRA EPC")
  if epc ∈ commonEpcs then throw (customError classCode entry "common EPCs may not be patched")
  if entry.unknown ≠ [] then
    throw (customError classCode entry s!"unknown patch fields: {sortedTexts entry.unknown}")
  if entry.changes = false then throw (customError classCode entry "patch must change at least one field")
  let fields ← validateNumericFields classCode entry
  let candidates := entities.filter fun entity => decide (entity.epc = epc)
  if candidates = [] then throw (customError classCode entry "patch target is not a scalar MRA entity")
  if 1 < candidates.length ∧ entry.byteOffset = none then
    throw (customError classCode entry "patch target has multiple byte offsets; specify byte_offset")
  match entry.byteOffset with
  | none => patchTargets classCode entry fields (fun entity => decide (entity.epc = epc)) entities
  | some value => do
    let byteOffset ← validateCode (some value) 0xFF "byte_offset" classCode entry
    if candidates.all fun entity => decide (entity.byteOffset ≠ byteOffset) then
      throw (customError classCode entry "patch byte_offset does not exist")
    patchTargets classCode entry fields
      (fun entity => decide (entity.epc = epc ∧ entity.byteOffset = byteOffset)) entities

/-! ### Definitions -/

/-- `_build_enum_value`, with the keys and EDTs so far. -/
def buildEnumValue (classCode : Nat) (entry : PropertyEntry) (values : List EnumValue) (value : Option EnumEntry) :
    Except Failure (List EnumValue) :=
  match value with
  | some ⟨some edt,some key,some nameEn,some nameJa,[]⟩ => do
    let edt ← validateCode (some edt) 0xFF "enum edt" classCode entry
    match key.name with
    | none => throw (customError classCode entry "enum key must be a non-empty string")
    | some key =>
      if key ∈ values.map EnumValue.key ∨ edt ∈ values.map EnumValue.edt then
        throw (customError classCode entry "enum keys and EDTs must be unique")
      else if nameEn = "" ∨ nameJa = "" then
        throw (customError classCode entry "enum display names must be non-empty strings")
      else pure (values ++ [⟨edt,key,nameEn,nameJa⟩])
  | _ => .error (customError classCode entry "define enum values require edt, key, name_en, and name_ja")

def nameField (value : Option String) (field : String) (classCode : Nat) (entry : PropertyEntry) :
    Except Failure String :=
  match value.filter (· ≠ "") with
  | some name => .ok name
  | none => .error (customError classCode entry s!"{field} is required for define")

/-- The values of a definition; none if it has none. -/
def enumField (classCode : Nat) (entry : PropertyEntry) : Except Failure (List (Option EnumEntry)) :=
  let truthy :=
    match entry.enumValues with
    | some (.entries values) => decide (values ≠ [])
    | some (.other truthy) => truthy
    | _ => false
  if truthy = entry.format.isSome then
    .error (customError classCode entry "define requires exactly one of format or enum_values")
  else
    match entry.enumValues with
    | some (.entries values) => .ok values
    | some (.other _) => .error (customError classCode entry "enum_values must be a list")
    | _ => .ok []

def buildCustomEntity (classCode : Nat) (entry : PropertyEntry) : Except Failure BuildEntity := do
  if entry.unknown ≠ [] then
    throw (customError classCode entry s!"unknown define fields: {sortedTexts entry.unknown}")
  let (epc,manufacturerCode) ← validateCustomProperty classCode entry
  let byteOffset ← validateCode (entry.byteOffset <|> some (.int 0)) 0xFF "byte_offset" classCode entry
  let nameEn ← nameField entry.nameEn "name_en" classCode entry
  let nameJa ← nameField entry.nameJa "name_ja" classCode entry
  let get ← validateAccess entry.get "get" classCode entry
  let set ← validateAccess (entry.set <|> some (.text "notApplicable")) "set" classCode entry
  let values ← enumField classCode entry
  let fields ← validateNumericFields classCode entry
  let enumValues ← values.foldlM (buildEnumValue classCode entry) []
  let role ← roleField .primary entry.role
  let normalized ← normalizeTwoValueEnumKeys enumValues classCode epc manufacturerCode
  let numeric := decide (enumValues = [])
  pure {
    id := entityId classCode epc manufacturerCode byteOffset
    epc
    nameEn
    nameJa
    readable := isAccessible get
    writable := isAccessible set
    descriptionEn := entry.descriptionEn.join
    descriptionJa := entry.descriptionJa.join
    format := if numeric then fields.format else none
    unit := if numeric then entry.unit.join else none
    minimum := if numeric then fields.minimum else none
    maximum := if numeric then fields.maximum else none
    multipleOf := if numeric then fields.multipleOf.getD 1 else 1
    enumValues := normalized
    byteOffset
    manufacturerCode
    role }

/-! ### Classes -/

/-- The entities of a class with the definitions that were made so far. -/
structure Defining where
  entities : List BuildEntity
  defineKeys : List (Epc × Nat × Option Nat) := []
  enumKeys : List (Epc × Option Nat) := []

/-- A definition in the body of the loop over the properties. -/
def applyDefine (mraEpcs : List Epc) (classCode : Nat) (state : Defining) (entry : PropertyEntry) :
    Except Failure Defining := do
  let (epc,manufacturerCode) ← validateCustomProperty classCode entry
  if epc ∈ mraEpcs then throw (customError classCode entry "define target is already an MRA EPC")
  let byteOffset ← validateCode (entry.byteOffset <|> some (.int 0)) 0xFF "byte_offset" classCode entry
  if (epc,byteOffset,manufacturerCode) ∈ state.defineKeys then
    throw (customError classCode entry "duplicate define")
  let defineKeys := state.defineKeys ++ [(epc,byteOffset,manufacturerCode)]
  let scopes := (defineKeys.filter fun key => decide (key.1 = epc ∧ key.2.1 = byteOffset)).map fun key => key.2.2
  if none ∈ scopes ∧ ¬ ∀ scope ∈ scopes, scope = none then
    throw (customError classCode entry "generic and manufacturer-specific defines may not coexist")
  if entry.enumValues.isSome ∧ (epc,manufacturerCode) ∈ state.enumKeys then
    throw (customError classCode entry
      "multiple enum defines for an EPC and manufacturer are not supported")
  let enumKeys := if entry.enumValues.isSome then state.enumKeys ++ [(epc,manufacturerCode)] else state.enumKeys
  let entity ← buildCustomEntity classCode entry
  pure ⟨state.entities ++ [entity],defineKeys,enumKeys⟩

/-- The body of the loop over the properties. -/
def applyProperty (mraEpcs commonEpcs : List Epc) (classCode : Nat) (state : Defining)
    (entry : Option PropertyEntry) : Except Failure Defining :=
  match entry with
  | none => .error (.valueError s!"Custom definition class 0x{hexUpper 4 classCode} properties must be mappings")
  | some entry =>
    match entry.mode.getD (.text "define") with
    | .text "patch" => do
      let entities ← applyPatch mraEpcs commonEpcs classCode entry state.entities
      pure {state with entities}
    | .text "define" => applyDefine mraEpcs classCode state entry
    | _ => .error (customError classCode entry "mode must be define or patch")

/-- The class that an entry is for: a new one, or one that it may rename. -/
def customDevice (build : DefinitionsBuild) (classCode : Nat) (entry : ClassEntry) : Except Failure DeviceBuild :=
  match Dict.get classCode build.devices with
  | none =>
    match entry.nameEn.bind Scalar.name,entry.nameJa.bind Scalar.name with
    | some nameEn,some nameJa => do
      let value :=
        match entry.shortName with
        | some (.text value) => value
        | _ => ""
      let shortName ← validateShortName value classCode true
      pure ⟨shortName,nameEn,nameJa,[],[]⟩
    | _,_ => .error (.valueError
        s!"Custom definition class 0x{hexUpper 4 classCode} requires name_en and name_ja")
  | some device =>
    if entry.shortName ≠ none then
      .error (.valueError (s!"Custom definition class 0x{hexUpper 4 classCode} may not specify " ++
        "short_name for an MRA class"))
    else if entry.nameEn = none ∧ entry.nameJa = none then .ok device
    else
      match entry.nameEn.bind Scalar.name,entry.nameJa.bind Scalar.name with
      | some nameEn,some nameJa => .ok {device with nameEn, nameJa}
      | _,_ => .error (.valueError s!"Custom definition class 0x{hexUpper 4 classCode} requires both names")

/-- The body of the loop over the classes. -/
def applyClass (build : DefinitionsBuild) (item : Scalar × Option ClassEntry) : Except Failure DefinitionsBuild := do
  let classCode ← validateCustomClassCode item.1 "Custom definition"
  match item.2 with
  | none => throw (.valueError s!"Custom definition class 0x{hexUpper 4 classCode} must be a mapping")
  | some entry =>
    if entry.unknown ≠ [] then
      throw (.valueError
        s!"Custom definition class 0x{hexUpper 4 classCode} has unknown fields: {sortedTexts entry.unknown}")
    match entry.properties with
    | none | some [] =>
      throw (.valueError s!"Custom definition class 0x{hexUpper 4 classCode} requires properties")
    | some properties => do
      let device ← customDevice build classCode entry
      let known := (Dict.get classCode build.devices).isSome
      let mraEpcs := if known then build.mraEpcs else Dict.insert classCode [] build.mraEpcs
      let epcs := (Dict.get classCode mraEpcs).getD []
      let state ← properties.foldlM (applyProperty epcs build.commonEpcs classCode) {entities := device.entities}
      pure {build with
        devices := Dict.insert classCode {device with entities := state.entities} build.devices
        mraEpcs}

/-- `_apply_custom_definitions`, for the mapping `devices`; none if that is no mapping. -/
def applyCustomDefinitions (build : DefinitionsBuild) (devices : Option (List (Scalar × Option ClassEntry))) :
    Except Failure DefinitionsBuild :=
  match devices with
  | none => .error (.valueError "Custom definitions devices must be a mapping")
  | some devices => devices.foldlM applyClass build

end Pyhems.Generator

import Pyhems.Generator.Spec

/-! The parser of flat properties, and the entities that are built from them. -/
namespace Pyhems.Generator
open Library Codec
open Protocol (hexUpper)
open Get (Epc)

inductive AccessRule where
  | required
  | requiredC
  | requiredO
  | optional
  | other (text : String)
  deriving DecidableEq, Repr

def isAccessible : AccessRule → Bool
  | .required | .requiredC | .requiredO | .optional => true
  | .other _ => false

/-- A property of the MRA; names and descriptions are English and Japanese. -/
structure PropertyData where
  epc : String
  propertyName : String × String
  descriptions : String × String
  get : AccessRule
  set : AccessRule
  data : Spec

structure MraProperty where
  epc : Epc
  nameEn : String
  nameJa : String
  descriptionEn : String
  descriptionJa : String
  get : AccessRule
  set : AccessRule
  dataType : DataType
  mraFormat : Option String := none
  mraUnit : Option String := none
  mraMinimum : Option ℚ := none
  mraMaximum : Option ℚ := none
  mraMultipleOf : Option ℚ := none
  enumValues : List EnumValue
  hasLevelEnums : Bool := false
  numericValues : List NumericValueEntry := []
  coefficientEpcs : List Epc := []

/-! ### Properties -/

/-- The alternatives of a property, without those that refer to nothing. -/
def resolvedSpecs (definitions : Definitions) (data : Spec) : List Spec :=
  (data.oneOf.getD [data]).filterMap fun spec =>
    match spec.ref with
    | some ref => ((definitionName ref).bind definitions).map fun definition => definition.merge spec
    | none => some spec

/-- A state of an `enum`, unless it is a range. -/
def propertyState (item : EnumItem) : Except Failure (Option EnumValue) := do
  let name ← required "name" item.name
  if isRange item.edt then pure none
  else
    let edt ← hexInt item.edt
    let descriptions ← required "descriptions" item.descriptions
    pure (some ⟨edt,name,normalizeTrailingNumber descriptions.1,descriptions.2⟩)

/-- The states of an alternative, and whether they are levels. -/
def specStates (spec : Spec) : Except Failure (List EnumValue × Bool) :=
  match spec.type with
  | some .level => do
    let base ← hexInt (← required "base" spec.base)
    let maximum ← required "maximum" spec.maximum
    if 256 ≤ base ∨ 32 < maximum then pure ([],false)
    else pure ((← levels maximum).map (levelValue base),true)
  | some .state => do pure ((← (spec.enum.getD []).mapM propertyState).filterMap id,false)
  | _ => .ok ([],false)

def parseMraProperty (prop : PropertyData) (definitions : Definitions) : Except Failure MraProperty := do
  let epc ← hexInt prop.epc
  match resolvedSpecs definitions prop.data with
  | [] => throw (.assertionError s!"No resolved specs for EPC 0x{hexUpper 2 epc}")
  | first :: others =>
    let type ← required "type" first.type
    let number := decide (type = .number)
    let coefficientEpcs ← if number then (first.coefficient.getD []).mapM hexInt else pure []
    let numericValues ← if type = .numericValue then parseNumericValues first else pure []
    let states ← (first :: others).mapM specStates
    let hasLevelEnums := states.any Prod.snd
    pure {
      epc
      nameEn := normalizeTrailingNumber prop.propertyName.1
      nameJa := prop.propertyName.2
      descriptionEn := prop.descriptions.1
      descriptionJa := prop.descriptions.2
      get := prop.get
      set := prop.set
      dataType := if hasLevelEnums then .state else type
      mraFormat := if number then first.format else none
      mraUnit := if number then first.unit else none
      mraMinimum := if number then first.minimum else none
      mraMaximum := if number then first.maximum else none
      mraMultipleOf := if number then orElse first.multiple first.multipleOf else none
      enumValues := states.flatMap Prod.fst
      hasLevelEnums, numericValues, coefficientEpcs }

/-! ### Keys of two states -/

/-- `_BOOLEAN_ENUM_KEY_NORMALIZATIONS`: the key that becomes `true` and the one that becomes `false`. -/
def booleanEnumKeyNormalizations : List (String × String) :=
  [("anyOpen","allClose"),("enable","disable"),("enabled","disabled"),("generationOn","generationOff"),
    ("necessary","notNecessary"),("warning","normal"),("on","off"),("open","close"),("open","closed"),
    ("permitted","prohibited"),("busy","ready"),("running","stopped"),("running","suspension")]

def nonBooleanTwoValueEnumKeys : List (String × String) :=
  [("airConditioning","blowing"),("cooling","heating"),("cooling","nonCooling"),
    ("devicePoint","powerReceivingPoint"),("down","up"),("loadFollowing","maximumRating"),
    ("builtIn","separate"),("freezing","refrigeration"),("normal","night"),("remoteController","wifi")]

/-- The same two keys, in any order. -/
def sameKeys (first second : String) (pair : String × String) : Bool :=
  decide (first = pair.1 ∧ second = pair.2 ∨ first = pair.2 ∧ second = pair.1)

/-- A text in single quotes, as `repr` writes it. -/
def quoted (text : String) : String := "\x27" ++ text ++ "\x27"

def sortedKeys (first second : String) : String :=
  if first = second then "[" ++ quoted first ++ "]"
  else if first < second then "[" ++ quoted first ++ ", " ++ quoted second ++ "]"
  else "[" ++ quoted second ++ ", " ++ quoted first ++ "]"

def normalizeTwoValueEnumKeys (enumValues : List EnumValue) (classCode : Nat) (epc : Epc)
    (manufacturerCode : Option Nat) : Except Failure (List EnumValue) :=
  match enumValues with
  | [first,second] =>
    if sameKeys first.key second.key ("true","false") ∨
        nonBooleanTwoValueEnumKeys.any (sameKeys first.key second.key) then .ok [first,second]
    else
      match booleanEnumKeyNormalizations.find? (sameKeys first.key second.key) with
      | some (on,_) =>
        let normalize (value : EnumValue) : EnumValue :=
          {value with key := if value.key = on then "true" else "false"}
        .ok [normalize first,normalize second]
      | none =>
        let manufacturer := manufacturerCode.elim "" fun code => s!", manufacturer 0x{hexUpper 6 code}"
        .error (.valueError (s!"Unclassified two-value enum for class 0x{hexUpper 4 classCode} " ++
          s!"EPC 0x{hexUpper 2 epc}{manufacturer}: {sortedKeys first.key second.key}. " ++
          "Classify it as boolean or non-boolean."))
  | _ => .ok enumValues

/-! ### Entities -/

/-- `f"{n:0widthx}"`. -/
def hexLower (width n : Nat) : String :=
  let digits := Nat.toDigits 16 n
  String.ofList (List.replicate (width-digits.length) '0' ++ digits)

/-- The entity of a property, for its states with their final keys. -/
def entityOf (classCode : Nat) (prop : MraProperty) (enumValues : List EnumValue) : EntityDefinition :=
  let isSensor := decide (prop.dataType = .number)
  { id := s!"class_{hexLower 4 classCode}_epc_{hexLower 2 prop.epc}"
    epc := prop.epc
    nameEn := prop.nameEn
    nameJa := prop.nameJa
    readable := isAccessible prop.get
    writable := isAccessible prop.set
    descriptionEn := prop.descriptionEn
    descriptionJa := prop.descriptionJa
    format := if isSensor then prop.mraFormat else none
    unit := if isSensor then prop.mraUnit else none
    minimum := if isSensor then prop.mraMinimum else none
    maximum := if isSensor then prop.mraMaximum else none
    multipleOf := if isSensor then prop.mraMultipleOf.getD 1 else 1
    enumValues
    numericValues := if prop.dataType = .numericValue then some prop.numericValues else none
    coefficientEpcs := if isSensor ∧ prop.coefficientEpcs ≠ [] then some prop.coefficientEpcs else none }

/-- The states of a sensor that lie in its range, if it has one; all states of any other property. -/
def enumVals (prop : MraProperty) : List EnumValue :=
  match decide (prop.dataType = .number),prop.mraMinimum,prop.mraMaximum with
  | true,some minimum,some maximum =>
    prop.enumValues.filter fun ev => decide (minimum ≤ (ev.edt : ℚ) ∧ (ev.edt : ℚ) ≤ maximum)
  | _,_,_ => prop.enumValues

def buildEntityFromProperty (classCode : Nat) (prop : MraProperty) : Except Failure (Option EntityDefinition) :=
  let name := s!"class 0x{hexUpper 4 classCode} EPC 0x{hexUpper 2 prop.epc}"
  let isState := decide (prop.dataType = .state)
  if isAccessible prop.get = false ∧ isAccessible prop.set = false then
    .error (.assertionError s!"Property for {name} is neither readable nor writable")
  else if prop.dataType ∉ [.number,.state,.numericValue] then .ok none
  else if isState ∧ prop.hasLevelEnums ∧ 16 < prop.enumValues.length then .ok none
  else if isState ∧ ¬ (prop.enumValues.map EnumValue.key).Nodup then .ok none
  else if prop.nameEn = "" then .error (.assertionError s!"Missing English name for {name}")
  else if isState ∧ prop.enumValues = [] then
    .error (.assertionError s!"state entity for {name} ({prop.nameEn}) has no enum_values")
  else do pure (some (entityOf classCode prop
    (← normalizeTwoValueEnumKeys (enumVals prop) classCode prop.epc none)))

end Pyhems.Generator

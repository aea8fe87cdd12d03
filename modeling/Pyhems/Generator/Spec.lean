import Pyhems.Codec.Structured

/-! The data specifications of the MRA, and the parser that turns one into a value definition. An
optional field is a key that a JSON object may lack. -/
namespace Pyhems.Generator
open Library Codec
open Get (Epc)

/-- The `type` of a specification; `raw` and whatever else there is are `other`. -/
inductive DataType where
  | array
  | object
  | numericValue
  | state
  | level
  | number
  | date
  | time
  | dateTime
  | other (text : String)
  deriving DecidableEq, Repr

/-- An entry of an `enum`, of a state or of a numeric value; `descriptions` are English and Japanese. -/
structure EnumItem where
  edt : String
  name : Option String := none
  descriptions : Option (String × String) := none
  numericValue : Option ℚ := none
  deriving DecidableEq, Repr

/-- An entry of `properties`; `elementName` is English and Japanese. -/
structure Property (α : Type) where
  shortName : String
  elementName : String × String
  element : α

structure Spec where
  ref : Option String := none
  type : Option DataType := none
  oneOf : Option (List Spec) := none
  items : Option Spec := none
  itemSize : Option Nat := none
  minItems : Option Nat := none
  maxItems : Option Nat := none
  properties : Option (List (Property Spec)) := none
  size : Option Nat := none
  minSize : Option Nat := none
  maxSize : Option Nat := none
  format : Option String := none
  unit : Option String := none
  minimum : Option ℚ := none
  maximum : Option ℚ := none
  multiple : Option ℚ := none
  multipleOf : Option ℚ := none
  coefficient : Option (List String) := none
  enum : Option (List EnumItem) := none
  base : Option String := none

/-- The definitions that `$ref` points to, by name. -/
abbrev Definitions := String → Option Spec

/-! ### Texts -/

def hexDigit (c : Char) : Option Nat :=
  if '0' ≤ c ∧ c ≤ '9' then some (c.toNat - '0'.toNat)
  else if 'a' ≤ c ∧ c ≤ 'f' then some (c.toNat - 'a'.toNat + 10)
  else if 'A' ≤ c ∧ c ≤ 'F' then some (c.toNat - 'A'.toNat + 10)
  else none

/-- `int(text, 16)`, for a text without blanks, sign and underscores. -/
def hexInt (text : String) : Except Failure Nat :=
  let digits :=
    match text.toList with
    | '0' :: 'x' :: digits | '0' :: 'X' :: digits => digits
    | digits => digits
  match digits.mapM hexDigit with
  | some (first :: others) => .ok (others.foldl (fun n digit => 16*n+digit) first)
  | _ => .error (.valueError s!"invalid literal for int() with base 16: '{text}'")

/-- `"..." in edt_str`. -/
def isRange (edt : String) : Bool := decide ("...".toList <:+: edt.toList)

/-- `_normalize_trailing_number`, for digits of ASCII. The end of the pattern is also before a last newline. -/
def normalizeTrailingNumber (name : String) : String :=
  let (newline,line) :=
    match name.toList.reverse with
    | '\n' :: line => (['\n'],line)
    | line => ([],line)
  let digits := (line.takeWhile Char.isDigit).reverse
  let before := line.dropWhile Char.isDigit
  match digits,(before.take 2).map Char.isAlpha with
  | _ :: _,[true,true] => String.ofList (before.reverse ++ ' ' :: digits ++ newline)
  | _,_ => name

/-! ### References -/

/-- A key of a JSON object that has to be there. -/
def required {α : Type} (key : String) : Option α → Except Failure α
  | some value => .ok value
  | none => .error (.keyError key)

theorem required_eq_ok {α : Type} {key : String} {x : Option α} {a : α} :
    required key x = .ok a ↔ x = some a := by
  cases x with
  | none => exact ⟨nofun,nofun⟩
  | some b => exact ⟨fun h => by cases h; rfl,fun h => by cases h; rfl⟩

/-- `{**definition, **siblings}`, the siblings without their `$ref`. -/
def Spec.merge (definition siblings : Spec) : Spec where
  ref := definition.ref
  type := siblings.type <|> definition.type
  oneOf := siblings.oneOf <|> definition.oneOf
  items := siblings.items <|> definition.items
  itemSize := siblings.itemSize <|> definition.itemSize
  minItems := siblings.minItems <|> definition.minItems
  maxItems := siblings.maxItems <|> definition.maxItems
  properties := siblings.properties <|> definition.properties
  size := siblings.size <|> definition.size
  minSize := siblings.minSize <|> definition.minSize
  maxSize := siblings.maxSize <|> definition.maxSize
  format := siblings.format <|> definition.format
  unit := siblings.unit <|> definition.unit
  minimum := siblings.minimum <|> definition.minimum
  maximum := siblings.maximum <|> definition.maximum
  multiple := siblings.multiple <|> definition.multiple
  multipleOf := siblings.multipleOf <|> definition.multipleOf
  coefficient := siblings.coefficient <|> definition.coefficient
  enum := siblings.enum <|> definition.enum
  base := siblings.base <|> definition.base

def definitionsPrefix : String := "#/definitions/"

/-- The name of the definition that a reference points to. -/
def definitionName (ref : String) : Option String :=
  if ref.startsWith definitionsPrefix then some (ref.replace definitionsPrefix "") else none

def resolveRef (spec : Spec) (definitions : Definitions) : Except Failure Spec :=
  match spec.ref.bind definitionName with
  | some name => do pure ((← required name (definitions name)).merge spec)
  | none => .ok spec

/-! ### The parser -/

def objectFieldByteSize : List (String × Nat) :=
  [("uint8",1),("int8",1),("uint16",2),("int16",2),("uint32",4),("int32",4)]

def rawTimeTypeSize : DataType → Option Nat
  | .date => some 4
  | .time => some 3
  | .dateTime => some 7
  | _ => none

/-- A state of an `enum`, unless it is a range. -/
def parseState (item : EnumItem) : Except Failure (Option EnumValue) :=
  if isRange item.edt then .ok none
  else do
    let descriptions ← required "descriptions" item.descriptions
    let edt ← hexInt item.edt
    let name ← required "name" item.name
    pure (some ⟨edt,name,normalizeTrailingNumber descriptions.1,descriptions.2⟩)

def parseStateEnumValues (spec : Spec) : Except Failure (List EnumValue) := do
  pure ((← (spec.enum.getD []).mapM parseState).filterMap id)

def parseNumericValues (spec : Spec) : Except Failure (List NumericValueEntry) :=
  (spec.enum.getD []).mapM fun item => do
    pure ⟨← hexInt item.edt,← required "numericValue" item.numericValue⟩

/-- The state of a level, counted from 0. -/
def levelValue (base i : Nat) : EnumValue where
  edt := base+i
  key := s!"level_{i+1}"
  nameEn := s!"Level {i+1}"
  nameJa := s!"レベル{i+1}"

/-- `range(maximum)`. -/
def levels (maximum : ℚ) : Except Failure (List Nat) :=
  if maximum.den = 1 then .ok (List.range maximum.num.toNat)
  else .error (.typeError "'float' object cannot be interpreted as an integer")

/-- `x or y`: zero counts as nothing. -/
def orElse (x y : Option ℚ) : Option ℚ := x.filter (· ≠ 0) <|> y

/-- A leaf of `_parse_value_spec`. -/
def parseLeaf (resolved : Spec) : Except Failure ScalarDefinition :=
  match resolved.type with
  | some .numericValue => do
    let size ← required "size" resolved.size
    pure {size, numericValues := some (← parseNumericValues resolved)}
  | some .state => do
    let size ← required "size" resolved.size
    pure {size, enumValues := ← parseStateEnumValues resolved}
  | some .level => do
    let base ← hexInt (← required "base" resolved.base)
    let maximum ← levels (← required "maximum" resolved.maximum)
    pure {size := 1, enumValues := (maximum.map (levelValue base)).filter fun value => decide (value.edt < 256)}
  | some .number => do
    let coefficientEpcs ← (resolved.coefficient.getD []).mapM hexInt
    pure {
      size := (resolved.format.bind fun format => objectFieldByteSize.lookup format).getD 1
      format := resolved.format
      unit := resolved.unit
      minimum := resolved.minimum
      maximum := resolved.maximum
      multipleOf := (orElse (orElse resolved.multiple resolved.multipleOf) (some 1)).getD 1
      coefficientEpcs }
  | type =>
    match type.bind rawTimeTypeSize with
    | some size => .ok {size}
    | none => .ok {size := resolved.size.getD 1}

/-- `_parse_value_spec`, for a way to read the leaves and the depth that the recursion may still take. -/
def parseWith (leaf : Spec → Except Failure ScalarDefinition) (definitions : Definitions) :
    Nat → Spec → Except Failure PropertyValueDefinition
  | 0, _ => .error .recursionError
  | depth+1, spec =>
    match spec.oneOf with
    | some options => do pure (.oneOf (← options.mapM (parseWith leaf definitions depth)))
    | none => do
      let resolved ← resolveRef spec definitions
      match resolved.type with
      | some .array => do
        let item ← parseWith leaf definitions depth (← required "items" resolved.items)
        let itemSize ← required "itemSize" resolved.itemSize
        pure (.array item itemSize resolved.minItems resolved.maxItems)
      | some .object => do
        let properties ← required "properties" resolved.properties
        pure (.object (← properties.mapM fun field => do
          let value ← parseWith leaf definitions depth field.element
          pure ⟨field.shortName,value,normalizeTrailingNumber field.elementName.1,field.elementName.2⟩))
      | _ => do pure (.scalar (← leaf resolved))

def parseValueSpec : Definitions → Nat → Spec → Except Failure PropertyValueDefinition :=
  parseWith parseLeaf

end Pyhems.Generator

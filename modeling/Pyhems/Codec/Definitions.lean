import Mathlib.Data.Rat.Defs
import Pyhems.Codec.Temporal
import Pyhems.Get.BatchPolicy

/-! The definitions of property values, flat and structured. Numbers of the definitions and of the
values are read as the rationals that they stand for. -/
namespace Pyhems.Codec
open Protocol
open Get (Epc)

/-- `nameEn` and `nameJa` are display names here and below. -/
structure EnumValue where
  edt : Nat
  key : String
  nameEn : String := ""
  nameJa : String := ""
  deriving DecidableEq, Repr

structure NumericValueEntry where
  edt : Nat
  value : ℚ
  deriving DecidableEq, Repr

/-- `EntityDefinition`, without the fields that only consumers read. -/
structure EntityDefinition where
  id : String
  epc : Epc
  nameEn : String
  nameJa : String
  readable : Bool
  writable : Bool
  descriptionEn : Option String := none
  descriptionJa : Option String := none
  format : Option String := none
  unit : Option String := none
  minimum : Option ℚ := none
  maximum : Option ℚ := none
  multipleOf : ℚ := 1
  enumValues : List EnumValue := []
  byteOffset : Nat := 0
  manufacturerCode : Option Nat := none
  numericValues : Option (List NumericValueEntry) := none
  coefficientEpcs : Option (List Epc) := none
  temporal : Option TemporalDefinition := none
  deriving DecidableEq, Repr

namespace EntityDefinition

def isBinary (entity : EntityDefinition) : Bool :=
  let keys := entity.enumValues.map EnumValue.key
  decide (entity.enumValues.length = 2) && decide ("true" ∈ keys) && decide ("false" ∈ keys)

end EntityDefinition

/-- A leaf of a structured property. -/
structure ScalarDefinition where
  size : Nat
  format : Option String := none
  unit : Option String := none
  minimum : Option ℚ := none
  maximum : Option ℚ := none
  multipleOf : ℚ := 1
  enumValues : List EnumValue := []
  numericValues : Option (List NumericValueEntry) := none
  coefficientEpcs : List Epc := []
  deriving DecidableEq, Repr

/-- A field of an object, with a definition of type `α` as its value. -/
structure ObjectField (α : Type) where
  key : String
  value : α
  nameEn : String := ""
  nameJa : String := ""

/-- `ScalarDefinition | ObjectDefinition | ArrayDefinition | OneOfDefinition`. -/
inductive PropertyValueDefinition where
  | scalar (definition : ScalarDefinition)
  | object (fields : List (ObjectField PropertyValueDefinition))
  | array (item : PropertyValueDefinition) (itemSize : Nat) (minItems maxItems : Option Nat)
  | oneOf (options : List PropertyValueDefinition)

/-- `REGISTRY.entities`. -/
structure Registry where
  entities : Nat → List EntityDefinition

/-- What a codec exchanges for an EDT; `none` is Python's None. -/
inductive Value where
  | none
  | bool (b : Bool)
  | number (n : ℚ)
  | text (s : String)
  | bytes (b : Bytes)
  | temporal (t : Temporal)
  deriving DecidableEq, Repr

/-- What a structured property decodes to. -/
inductive Decoded where
  | value (v : Value)
  | dict (entries : List (String × Decoded))
  | tuple (items : List Decoded)

/-- The EDTs of the same device object, by EPC. -/
abbrev Context := Epc → Option Bytes

/-- The arithmetic of Python's floats, which rounds: a parameter of everything that scales. -/
structure Arithmetic where
  product : ℚ → ℚ → ℚ
  quotient : ℚ → ℚ → ℚ

def Arithmetic.exact : Arithmetic := ⟨(· * ·),(· / ·)⟩

end Pyhems.Codec

import Mathlib.Data.List.Dedup
import Pyhems.Codec.Codecs

/-! The decoder of structured properties. It walks a definition, and gives every field of an object
a slice of the EDT. -/
namespace Pyhems.Codec
open Protocol Library
open Get (Epc)

/-- What decoding depends on besides the EDT: `context` and `class_code`, the registry, and floats. -/
structure Environment where
  arithmetic : Arithmetic
  registry : Registry
  context : Option Context := none
  classCode : Option Nat := none

namespace PropertyValueDefinition

mutual

/-- `_value_definition_byte_size`; none is its ValueError. -/
def byteSize : PropertyValueDefinition → Option Nat
  | .scalar definition => some definition.size
  | .oneOf options => do
    match (← byteSizes options).dedup with
    | [size] => some size
    | _ => none
  | .object fields => totalSize fields
  | .array .. => none

def byteSizes : List PropertyValueDefinition → Option (List Nat)
  | [] => some []
  | option :: options => do pure ((← byteSize option) :: (← byteSizes options))

def totalSize : List (ObjectField PropertyValueDefinition) → Option Nat
  | [] => some 0
  | ⟨_,value,_,_⟩ :: fields => do pure ((← byteSize value)+(← totalSize fields))

end

/-- `isinstance(value, ArrayDefinition)`. -/
def isArray : PropertyValueDefinition → Bool
  | .array .. => true
  | _ => false

/-- `_fixed_size_options`: the widths of the options, in their order. -/
def fixedSizeOptions : PropertyValueDefinition → Option (List Nat)
  | .oneOf options => byteSizes options
  | definition => (byteSize definition).map fun size => [size]

end PropertyValueDefinition

/-- The first state with the number `raw`. -/
def stateKey (enumValues : List EnumValue) (raw : Nat) : Value :=
  ((enumValues.find? fun ev => decide (ev.edt = raw)).map EnumValue.key).elim .none .text

section Decode
variable (env : Environment)

/-- `get_codec_for_epc` for a coefficient EPC. -/
def Environment.lookup (classCode : Nat) (epc : Epc) : Except Failure PropertyCodec :=
  getCodecForEpc env.registry classCode epc none 0

def decodeScalar (definition : ScalarDefinition) (chunk : Bytes) : Except Failure Value :=
  if chunk.length ≠ definition.size then .ok .none
  else
    match definition.numericValues with
    | some entries =>
      (PropertyCodec.numericValue (Dict.ofPairs (entries.map fun nv => (nv.edt,nv.value))) 0).decode
        env.arithmetic none chunk
    | none =>
      if definition.enumValues ≠ [] then .ok (stateKey definition.enumValues (fromBytes chunk))
      else
        match definition.format.filter (· ≠ "") with
        | some format =>
          if definition.coefficientEpcs ≠ [] ∧ env.classCode = none then .ok .none
          else do
            let coefficients ← coefficientCodecs env.lookup definition.coefficientEpcs env.classCode 0
            (PropertyCodec.numeric format definition.multipleOf definition.minimum definition.maximum 0
              coefficients).decode env.arithmetic env.context chunk
        | none => .ok (.bytes chunk)

/-- `x is not None`. -/
def Decoded.found : Decoded → Bool
  | .value .none => false
  | _ => true

/-- The slices of an array: `count` items of `itemSize` bytes each. -/
def itemSlices (chunk : Bytes) (itemSize count : Nat) : List Bytes :=
  (List.range count).map fun i => slice chunk (i*itemSize) ((i+1)*itemSize)

mutual

def decodePropertyValue : PropertyValueDefinition → Bytes → Except Failure Decoded
  | .scalar definition, chunk => do pure (.value (← decodeScalar env definition chunk))
  | .oneOf options, chunk => decodeOptions options chunk
  | .object fields, chunk => do
    match ← decodeFields fields chunk with
    | some entries => pure (.dict entries)
    | none => pure (.value .none)
  | .array item itemSize minItems maxItems, chunk =>
    if itemSize = 0 ∨ chunk.length % itemSize ≠ 0 then .ok (.value .none)
    else
      let count := chunk.length/itemSize
      if (maxItems.any fun greatest => decide (greatest < count)) then .ok (.value .none)
      else if (minItems.any fun least => decide (count < least)) then .ok (.value .none)
      else do pure (.tuple (← (itemSlices chunk itemSize count).mapM fun item' => decodePropertyValue item item'))

/-- The loop over the options of a oneOf. -/
def decodeOptions : List PropertyValueDefinition → Bytes → Except Failure Decoded
  | [], _ => .ok (.value .none)
  | option :: options, chunk => do
    let result ← decodePropertyValue option chunk
    if result.found then pure result else decodeOptions options chunk

/-- `decode_fields` for the remaining fields and the bytes from the cursor on. -/
def decodeFields : List (ObjectField PropertyValueDefinition) → Bytes →
    Except Failure (Option (List (String × Decoded)))
  | [], chunk => .ok (if chunk = [] then some [] else none)
  | ⟨key,value,_,_⟩ :: fields, chunk =>
    if value.isArray then
      if fields.isEmpty then do
        let items ← decodePropertyValue value chunk
        pure (if items.found then some [(key,items)] else none)
      else .ok none
    else
      match value.fixedSizeOptions with
      | none => .ok none
      | some sizes => sizes.findSomeM? fun size =>
        if size ≤ chunk.length then do
          match ← decodeFields fields (chunk.drop size) with
          | none => pure none
          | some remaining =>
            pure (some (Dict.ofPairs ((key,← decodePropertyValue value (chunk.take size)) :: remaining)))
        else pure none

end

end Decode

end Pyhems.Codec

import Mathlib.Data.Rat.Floor
import Pyhems.Codec.Definitions
import Pyhems.Library.Dict

/-! The codecs of flat properties, and which one a definition selects. -/
namespace Pyhems.Codec
open Protocol Library
open Get (Epc)

/-- `PropertyCodec`: `TemporalCodec`, `BinaryCodec`, `EnumCodec`, `NumericCodec` and
`NumericValueCodec`. -/
inductive PropertyCodec where
  | temporal (definition : TemporalDefinition) (enumValues : List EnumValue)
  | binary (onEdt offEdt byteOffset : Nat)
  | enum (byKey : List (String × Nat)) (byEdt : List (Nat × String)) (byteOffset : Nat)
  | numeric (mraFormat : String) (scale : ℚ) (minimum maximum : Option ℚ) (byteOffset : Nat)
      (coefficients : List (Epc × PropertyCodec))
  | numericValue (byEdt : List (Nat × ℚ)) (byteOffset : Nat)

/-- `_FORMAT_INFO`: signedness and byte count. -/
def formatInfo : List (String × (Bool × Nat)) :=
  [("uint8",(false,1)),("int8",(true,1)),("uint16",(false,2)),("int16",(true,2)),
    ("uint32",(false,4)),("int32",(true,4))]

/-- `int.from_bytes(data, "big", signed=signed)`. -/
def signedNumber (signed : Bool) (data : Bytes) : Int :=
  let n := fromBytes data
  if signed ∧ 256^data.length ≤ 2*n then (n : Int)-256^data.length else n

/-- `n.to_bytes(count, "big", signed=signed)`; none is its OverflowError. -/
def signedBytes (signed : Bool) (count : Nat) (n : Int) : Option Bytes :=
  let bound : Int := 256^count
  if signed then
    if -bound ≤ 2*n ∧ 2*n < bound then some (BigEndian.digits count (n % bound).toNat) else none
  else if 0 ≤ n ∧ n < bound then some (BigEndian.digits count n.toNat)
  else none

/-- `round`: half-way cases go to the even neighbour. -/
def roundHalfEven (q : ℚ) : Int :=
  let below := ⌊q⌋
  if q-below < 1/2 then below
  else if 1/2 < q-below then below+1
  else if below % 2 = 0 then below
  else below+1

/-- The number lies between the limits that there are. -/
def inRange (minimum maximum : Option ℚ) (raw : Int) : Bool :=
  (minimum.all fun least => decide (least ≤ (raw : ℚ))) &&
    maximum.all fun greatest => decide ((raw : ℚ) ≤ greatest)

/-- `bytes([edt])`. -/
def singleByte (edt : Nat) : Except Failure Bytes :=
  if edt < 256 then .ok [UInt8.ofNat edt] else .error (.valueError "bytes must be in range(0, 256)")

def rejectByteOffset (codec : String) (byteOffset : Nat) : Except Failure Unit :=
  if byteOffset = 0 then .ok ()
  else .error (.valueError (codec ++
    ".encode does not support byte_offset; compose the full EDT in the caller"))

namespace PropertyCodec

/-- The byte at `byte_offset`, which the codecs of single bytes look at. -/
def byte (byteOffset : Nat) (edt : Bytes) : Option Nat := edt[byteOffset]?.map UInt8.toNat

/-- The number of a numeric codec before scaling. -/
def raw (mraFormat : String) (minimum maximum : Option ℚ) (byteOffset : Nat) (edt : Bytes) : Option Int :=
  match formatInfo.lookup mraFormat with
  | none => none
  | some (signed,byteCount) =>
    if edt.length < byteOffset+byteCount then none
    else
      let raw := signedNumber signed (slice edt byteOffset (byteOffset+byteCount))
      if inRange minimum maximum raw then some raw else none

variable (arithmetic : Arithmetic)

/-- `state.edt.to_bytes(size, "big")`. -/
def stateBytes (state : EnumValue) (size : Nat) : Except Failure Bytes :=
  if state.edt < 256^size then .ok (BigEndian.digits size state.edt)
  else .error (.overflowError "int too big to convert")

/-- The first state with this EDT. -/
def findState (size : Nat) (edt : Bytes) : List EnumValue → Except Failure (Option EnumValue)
  | [] => .ok none
  | state :: states => do
    if edt = (← stateBytes state size) then pure (some state) else findState size edt states

mutual

def decode : PropertyCodec → Option Context → Bytes → Except Failure Value
  | .temporal definition enumValues, _, edt => do
    let state ← if edt.length = definition.size then findState definition.size edt enumValues else pure none
    match state with
    | some state => pure (.text state.key)
    | none => pure ((definition.decode edt).elim .none .temporal)
  | .binary onEdt offEdt byteOffset, _, edt =>
    match byte byteOffset edt with
    | none => .ok .none
    | some val => .ok (if val = onEdt then .bool true else if val = offEdt then .bool false else .none)
  | .enum _ byEdt byteOffset, _, edt =>
    .ok (((byte byteOffset edt).bind fun val => Dict.get val byEdt).elim .none .text)
  | .numeric mraFormat scale minimum maximum byteOffset coefficients, context, edt =>
    match raw mraFormat minimum maximum byteOffset edt with
    | none => .ok .none
    | some raw =>
      let value : ℚ := if scale = 1 then raw else arithmetic.product raw scale
      match coefficients,context with
      | [], _ => .ok (.number value)
      | _, none => .ok .none
      | coefficients, some context => do
        match ← coefficient coefficients context 1 with
        | some factor => pure (.number (arithmetic.product value factor))
        | none => pure .none
  | .numericValue byEdt byteOffset, _, edt =>
    .ok (((byte byteOffset edt).bind fun val => Dict.get val byEdt).elim .none .number)

/-- The product of the values of the coefficient EPCs. -/
def coefficient : List (Epc × PropertyCodec) → Context → ℚ → Except Failure (Option ℚ)
  | [], _, factor => .ok (some factor)
  | (epc,codec) :: coefficients, context, factor =>
    match context epc with
    | none => .ok none
    | some edt => do
      match ← decode codec none edt with
      | .number n => coefficient coefficients context (arithmetic.product factor n)
      | _ => pure none

end

/-- `math.isclose(a, b, rel_tol=1e-9)`. -/
def isClose (a b : ℚ) : Bool := decide (|a-b| ≤ 1/1000000000*max |a| |b|)

/-- `encode`, for a value of the type that the codec is annotated with. -/
def encode : PropertyCodec → Value → Except Failure Bytes
  | .temporal definition enumValues, .text key =>
    match enumValues.find? fun state => state.key = key with
    | some state => stateBytes state definition.size
    | none => .error (.valueError s!"Unknown or unsupported temporal state: '{key}'")
  | .temporal definition _, .temporal value => definition.encode value
  | .temporal definition _, _ => .error (.valueError s!"Invalid value type for {definition.kind.text}")
  | .binary onEdt offEdt byteOffset, .bool value => do
    rejectByteOffset "BinaryCodec" byteOffset
    singleByte (if value then onEdt else offEdt)
  | .enum byKey _ byteOffset, .text key => do
    rejectByteOffset "EnumCodec" byteOffset
    match Dict.get key byKey with
    | some edt => singleByte edt
    | none => .error (.valueError s!"Unknown enum key: '{key}'")
  | .numeric mraFormat scale minimum maximum byteOffset coefficients, .number value => do
    if coefficients ≠ [] then
      throw (.valueError ("NumericCodec.encode does not support coefficients; resolving the coefficient " ++
        "requires device state, which encode() does not receive"))
    rejectByteOffset "NumericCodec" byteOffset
    match formatInfo.lookup mraFormat with
    | none => throw (.valueError s!"Unknown MRA format: {mraFormat}")
    | some (signed,byteCount) =>
      let raw := roundHalfEven (if scale ≠ 1 then arithmetic.quotient value scale else value)
      if !inRange minimum maximum raw then throw (.valueError "Value out of range")
      else
        match signedBytes signed byteCount raw with
        | some edt => pure edt
        | none => throw (.valueError s!"Value out of range for format {mraFormat}")
  | .numericValue byEdt byteOffset, .number value => do
    rejectByteOffset "NumericValueCodec" byteOffset
    match byEdt.find? fun entry => isClose entry.2 value with
    | some entry => singleByte entry.1
    | none => .error (.valueError "Unknown numeric value")
  | _, _ => .error (.typeError "value of another type")

/-- Without coefficients, a number does not depend on other properties. -/
theorem decode_numeric (arithmetic : Arithmetic) (mraFormat : String) (scale : ℚ)
    (minimum maximum : Option ℚ) (byteOffset : Nat) (context : Option Context) (edt : Bytes) :
    decode arithmetic (.numeric mraFormat scale minimum maximum byteOffset []) context edt =
      .ok ((raw mraFormat minimum maximum byteOffset edt).elim .none fun raw =>
        .number (if scale = 1 then raw else arithmetic.product raw scale)) := by
  rw [decode]
  cases raw mraFormat minimum maximum byteOffset edt <;> rfl

end PropertyCodec

/-! ### Selection -/

def EntityDefinition.getBinaryValues (entity : EntityDefinition) : Except Failure (Nat × Nat) :=
  let values := Dict.ofPairs (entity.enumValues.map fun value => (value.key,value.edt))
  match decide (entity.enumValues.length = 2),Dict.get "true" values,Dict.get "false" values with
  | true,some onEdt,some offEdt => do
    let _ ← singleByte onEdt
    let _ ← singleByte offEdt
    pure (onEdt,offEdt)
  | _,_,_ => .error (.valueError
      s!"Binary entity EPC 0x{hexUpper 2 entity.epc} requires true/false enum keys")

/-- `_coefficient_codecs`, with `get_codec_for_epc` as `lookup`. -/
def coefficientCodecs (lookup : Nat → Epc → Except Failure PropertyCodec) (coefficientEpcs : List Epc)
    (classCode : Option Nat) (epc : Epc) : Except Failure (List (Epc × PropertyCodec)) :=
  match coefficientEpcs,classCode with
  | [],_ => .ok []
  | _,none => .error (.valueError
      s!"class_code is required to resolve the coefficient EPCs of EPC 0x{hexUpper 2 epc}")
  | coefficientEpcs,some classCode =>
    coefficientEpcs.mapM fun coefEpc => do pure (coefEpc,← lookup classCode coefEpc)

/-- `get_codec`, with `get_codec_for_epc` as `lookup`. -/
def getCodecWith (lookup : Nat → Epc → Except Failure PropertyCodec) (entity : EntityDefinition)
    (classCode : Option Nat) : Except Failure PropertyCodec :=
  match entity.temporal with
  | some definition =>
    if entity.byteOffset ≠ 0 then .error (.valueError "Temporal codecs do not support byte_offset")
    else .ok (.temporal definition entity.enumValues)
  | none =>
    match entity.numericValues with
    | some (entry :: entries) =>
      .ok (.numericValue (Dict.ofPairs ((entry :: entries).map fun nv => (nv.edt,nv.value))) entity.byteOffset)
    | _ =>
      if entity.enumValues ≠ [] then
        if entity.isBinary then do
          let (onEdt,offEdt) ← entity.getBinaryValues
          pure (.binary onEdt offEdt entity.byteOffset)
        else
          .ok (.enum (Dict.ofPairs (entity.enumValues.map fun ev => (ev.key,ev.edt)))
            (Dict.ofPairs (entity.enumValues.map fun ev => (ev.edt,ev.key))) entity.byteOffset)
      else
        match entity.format.filter (· ≠ "") with
        | some format => do
          let coefficients ←
            coefficientCodecs lookup (entity.coefficientEpcs.getD []) classCode entity.epc
          pure (.numeric format entity.multipleOf entity.minimum entity.maximum entity.byteOffset coefficients)
        | none => .error (.valueError (s!"Cannot determine codec for EPC 0x{hexUpper 2 entity.epc}: " ++
            "neither enum_values, format, nor numeric_values is set"))

/-- The definition that `get_codec_for_epc` picks: one of the manufacturer, or else the first generic
one. -/
def Registry.entity (registry : Registry) (classCode : Nat) (epc : Epc) (manufacturerCode : Option Nat)
    (byteOffset : Nat) : Option EntityDefinition :=
  let candidates := (registry.entities classCode).filter fun entity =>
    decide (entity.epc = epc) && decide (entity.byteOffset = byteOffset)
  (candidates.find? fun entity => manufacturerCode.isSome && decide (entity.manufacturerCode = manufacturerCode)).or
    (candidates.find? fun entity => entity.manufacturerCode.isNone)

/-- `get_codec_for_epc`, with the depth that the recursion may still take. -/
def getCodecForEpcWithin (registry : Registry) : (depth classCode : Nat) → (epc : Epc) →
    (manufacturerCode : Option Nat) → (byteOffset : Nat) → Except Failure PropertyCodec
  | 0, _, _, _, _ => .error .recursionError
  | depth+1, classCode, epc, manufacturerCode, byteOffset =>
    match registry.entity classCode epc manufacturerCode byteOffset with
    | some entity =>
      getCodecWith (fun classCode epc => getCodecForEpcWithin registry depth classCode epc none 0) entity
        (some classCode)
    | none => .error (.lookupError
        s!"EPC 0x{hexUpper 2 epc} not found for class 0x{hexUpper 4 classCode}")

def recursionLimit : Nat := 1000

def getCodecForEpc (registry : Registry) (classCode : Nat) (epc : Epc)
    (manufacturerCode : Option Nat) (byteOffset : Nat) : Except Failure PropertyCodec :=
  getCodecForEpcWithin registry recursionLimit classCode epc manufacturerCode byteOffset

def getCodec (registry : Registry) (entity : EntityDefinition) (classCode : Option Nat) :
    Except Failure PropertyCodec :=
  getCodecWith (fun classCode epc => getCodecForEpc registry classCode epc none 0) entity classCode

end Pyhems.Codec

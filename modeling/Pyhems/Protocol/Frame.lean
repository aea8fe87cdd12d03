import Pyhems.Protocol.Bytes

/-! Objects, services, properties and the wire form of one ECHONET Lite frame. -/
namespace Pyhems.Protocol

/-- A 24-bit object identifier; the field is what `__post_init__` validates. -/
structure EOJ where
  value : Nat
  valid : value ≤ 0xFFFFFF
  deriving DecidableEq, Repr

namespace EOJ

/-- The constructor call `EOJ(value)` with its validation. -/
def make (value : Nat) : Except Exn EOJ :=
  if h : value ≤ 0xFFFFFF then .ok ⟨value,h⟩
  else .error (.valueError s!"EOJ must be 24-bit value, got {hexLiteral value}")

def classCode (eoj : EOJ) : Nat := eoj.value / 256

def toBytes (eoj : EOJ) : Except Exn Bytes := Protocol.toBytes eoj.value 3

def fromBytes (data : Bytes) : Except Exn EOJ :=
  if data.length ≠ 3 then .error (.valueError s!"EOJ must be exactly 3 bytes, got {data.length}")
  else make (Protocol.fromBytes data)

def repr (eoj : EOJ) : String := s!"EOJ(0x{hexUpper 6 eoj.value})"

end EOJ

/-- `CONTROLLER_INSTANCE` and `NODE_PROFILE_INSTANCE`. -/
def controllerInstance : EOJ := ⟨0x05FF01,by decide⟩

def nodeProfileInstance : EOJ := ⟨0x0EF001,by decide⟩

/-- ECHONET Lite service values. -/
inductive ESV where
  | setiSna | setcSna | getSna | infSna | setgetSna
  | seti | setc | get | infReq | setget
  | setRes | getRes | inf | infc | infcRes | setgetRes
  deriving DecidableEq, Repr

namespace ESV

def value : ESV → UInt8
  | setiSna => 0x50 | setcSna => 0x51 | getSna => 0x52 | infSna => 0x53 | setgetSna => 0x5E
  | seti => 0x60 | setc => 0x61 | get => 0x62 | infReq => 0x63 | setget => 0x6E
  | setRes => 0x71 | getRes => 0x72 | inf => 0x73 | infc => 0x74 | infcRes => 0x7A
  | setgetRes => 0x7E

def members : List ESV :=
  [setiSna,setcSna,getSna,infSna,setgetSna,seti,setc,get,infReq,setget,
    setRes,getRes,inf,infc,infcRes,setgetRes]

/-- The enum lookup `ESV(value)`. -/
def ofValue (value : UInt8) : Except Exn ESV :=
  match members.find? (fun esv => esv.value == value) with
  | some esv => .ok esv
  | none => .error (.valueError s!"{value} is not a valid ESV")

end ESV

structure Property where
  epc : Nat
  edt : Bytes := []
  deriving DecidableEq, Repr

def Property.pdc (prop : Property) : Nat := prop.edt.length

structure Frame where
  seoj : EOJ
  deoj : EOJ
  esv : ESV
  tid : Nat := 0
  properties : List Property := []
  deriving DecidableEq, Repr

def ehd1 : UInt8 := 0x10
def ehd2 : UInt8 := 0x81

/-- The three appends that write one property. -/
def Property.encode (prop : Property) : Except Exn Bytes := do
  let epc ← appended prop.epc
  let pdc ← appended prop.pdc
  pure (epc :: pdc :: prop.edt)

/-- The property loop of `Frame.encode`. -/
def encodeProperties : List Property → Except Exn Bytes
  | [] => pure []
  | prop :: rest => do
    let head ← prop.encode
    let tail ← encodeProperties rest
    pure (head ++ tail)

def Frame.encode (frame : Frame) : Except Exn Bytes := do
  let tid ← toBytes frame.tid 2
  let seoj ← frame.seoj.toBytes
  let deoj ← frame.deoj.toBytes
  let opc ← appended frame.properties.length
  let properties ← encodeProperties frame.properties
  pure ([ehd1,ehd2] ++ tid ++ seoj ++ deoj ++ [frame.esv.value,opc] ++ properties)

/-- The property loop of `Frame.decode`: `opc` properties from `offset` on. -/
def decodeProperties (data : Bytes) : (opc offset : Nat) → Except Exn (List Property)
  | 0, _ => pure []
  | opc+1, offset =>
    if offset+2 > data.length then throw (.frameDecodeError "Incomplete property header")
    else do
      let epc ← byteAt data offset
      let pdc ← byteAt data (offset+1)
      let stop := offset+2+pdc.toNat
      if stop > data.length then throw (.frameDecodeError "Incomplete property data")
      else do
        let rest ← decodeProperties data opc stop
        pure (⟨epc.toNat,slice data (offset+2) stop⟩ :: rest)

/-- `ESV(data[10])` with its `ValueError` turned into a `FrameDecodeError`. -/
def decodeEsv (value : UInt8) : Except Exn ESV :=
  match ESV.ofValue value with
  | .error (.valueError _) => .error (.frameDecodeError s!"Unknown ESV: {hexLiteral value.toNat}")
  | result => result

def Frame.decode (data : Bytes) : Except Exn Frame :=
  if data.length < 12 then throw (.frameDecodeError "Frame too short")
  else do
    let first ← byteAt data 0
    let second ← byteAt data 1
    if first ≠ ehd1 ∨ second ≠ ehd2 then
      throw (.frameDecodeError
        s!"Invalid ECHONET Lite header: {hexLiteral first.toNat} {hexLiteral second.toNat}")
    else do
      let tid := fromBytes (slice data 2 4)
      let seoj ← EOJ.fromBytes (slice data 4 7)
      let deoj ← EOJ.fromBytes (slice data 7 10)
      let esv ← decodeEsv (← byteAt data 10)
      let opc ← byteAt data 11
      let properties ← decodeProperties data opc.toNat 12
      pure ⟨seoj,deoj,esv,tid,properties⟩

end Pyhems.Protocol

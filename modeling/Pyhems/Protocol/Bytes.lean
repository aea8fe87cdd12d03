import Pyhems.Library.BigEndian

/-! Byte strings, integer conversions and the exceptions that the protocol code
can raise. Every operation that Python lets fail returns `Except`. -/
namespace Pyhems.Protocol
open Library

abbrev Bytes := List UInt8

/-- Exceptions with the text they carry. `FrameDecodeError` is a subclass of
`ValueError` in the source; the constructor keeps the class that was raised. -/
inductive Exn where
  | frameDecodeError (text : String)
  | valueError (text : String)
  | overflowError (text : String)
  | indexError (text : String)
  | runtimeError (text : String)
  | getAbortedError (text : String)
  | clientStoppedError (text : String)
  | cancelledError
  deriving DecidableEq, Repr

/-- `data[index]`. -/
def byteAt (data : Bytes) (index : Nat) : Except Exn UInt8 :=
  match data[index]? with
  | some b => .ok b
  | none => .error (.indexError "index out of range")

/-- `data[start:stop]`, which Python clips at the end of the data. -/
def slice (data : Bytes) (start stop : Nat) : Bytes := (data.drop start).take (stop-start)

/-- `int.from_bytes(data, "big")`. -/
def fromBytes (data : Bytes) : Nat := BigEndian.value data

/-- `n.to_bytes(width, "big")`. -/
def toBytes (n width : Nat) : Except Exn Bytes :=
  if n < 256^width then .ok (BigEndian.digits width n)
  else .error (.overflowError "int too big to convert")

/-- The byte that `bytearray.append` adds. -/
def appended (n : Nat) : Except Exn UInt8 :=
  if n < 256 then .ok (UInt8.ofNat n) else .error (.valueError "byte must be in range(0, 256)")

/-- `f"{n:#x}"`. -/
def hexLiteral (n : Nat) : String := "0x" ++ String.ofList (Nat.toDigits 16 n)

/-- `f"{n:0widthX}"`. -/
def hexUpper (width n : Nat) : String :=
  let digits := (Nat.toDigits 16 n).map Char.toUpper
  String.ofList (List.replicate (width-digits.length) '0' ++ digits)

def hex (data : Bytes) : String :=
  String.ofList (data.flatMap fun b => [Nat.digitChar (b.toNat/16),Nat.digitChar (b.toNat%16)])

theorem byteAt_of_lt {data : Bytes} {index : Nat} (h : index < data.length) :
    byteAt data index = .ok data[index] := by
  simp [byteAt,h]

theorem length_slice {data : Bytes} {start stop : Nat} (h : stop ≤ data.length) :
    (slice data start stop).length = stop-start := by
  simp only [slice,List.length_take,List.length_drop]
  omega

theorem toBytes_of_lt {n width : Nat} (h : n < 256^width) :
    toBytes n width = .ok (BigEndian.digits width n) := if_pos h

theorem appended_of_lt {n : Nat} (h : n < 256) : appended n = .ok (UInt8.ofNat n) := if_pos h

theorem appended_toNat (b : UInt8) : appended b.toNat = .ok b := by
  rw [appended_of_lt b.toNat_lt,UInt8.ofNat_toNat]

/-- A number read from bytes is written back to exactly those bytes. -/
theorem toBytes_fromBytes (data : Bytes) : toBytes (fromBytes data) data.length = .ok data := by
  rw [fromBytes,toBytes_of_lt (BigEndian.value_lt data),BigEndian.digits_value]

end Pyhems.Protocol

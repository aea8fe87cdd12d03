import Mathlib.Data.Nat.Notation
import Pyhems.Protocol.Bytes

/-! Dates and times as a codec exchanges them, and the wire format of a temporal property. -/
namespace Pyhems.Codec
open Protocol

/-- Exceptions of the codecs and of the generator of their definitions. -/
inductive Failure where
  | valueError (text : String)
  | overflowError (text : String)
  | lookupError (text : String)
  | keyError (key : String)
  | assertionError (text : String)
  | typeError (text : String)
  | zeroDivisionError (text : String)
  | recursionError
  deriving DecidableEq, Repr

inductive TemporalKind where
  | date
  | clock
  | duration
  | datetime
  deriving DecidableEq, Repr

namespace TemporalKind

def text : TemporalKind → String
  | date => "date"
  | clock => "clock"
  | duration => "duration"
  | datetime => "datetime"

/-- The byte widths that `__post_init__` admits. -/
def sizes : TemporalKind → List Nat
  | date => [4]
  | clock | duration => [2,3]
  | datetime => [6,7]

end TemporalKind

/-- `TemporalDefinition`; the last three fields are what `__post_init__` validates. -/
structure TemporalDefinition where
  kind : TemporalKind
  size : Nat
  maximumHour : Nat := 23
  supported : size ∈ kind.sizes
  byte : maximumHour ≤ 255
  clock : kind = .clock → maximumHour ≤ 23
  deriving DecidableEq, Repr

/-! ### Calendar -/

def leapYear (year : Nat) : Bool :=
  decide (year % 4 = 0) && (decide (year % 100 ≠ 0) || decide (year % 400 = 0))

def daysInMonth (year month : Nat) : Nat :=
  if month = 2 then if leapYear year then 29 else 28
  else if month ∈ [4,6,9,11] then 30 else 31

/-- `datetime.date`, which exists for the days of the years 1 to 9999 only. -/
structure Date where
  year : Nat
  month : Nat
  day : Nat
  valid : (1 ≤ year ∧ year ≤ 9999) ∧ (1 ≤ month ∧ month ≤ 12) ∧ 1 ≤ day ∧ day ≤ daysInMonth year month
  deriving DecidableEq, Repr

/-- The constructor call `date(year, month, day)`; none is its ValueError. -/
def Date.make (year month day : Nat) : Option Date :=
  if valid : (1 ≤ year ∧ year ≤ 9999) ∧ (1 ≤ month ∧ month ≤ 12) ∧
      1 ≤ day ∧ day ≤ daysInMonth year month then
    some {year, month, day, valid}
  else none

/-- `datetime.time`; `aware` is `tzinfo is not None`. -/
structure Time where
  hour : Nat
  minute : Nat
  second : Nat
  microsecond : Nat := 0
  fold : Bool := false
  aware : Bool := false
  valid : hour < 24 ∧ minute < 60 ∧ second < 60 ∧ microsecond < 1000000
  deriving DecidableEq, Repr

/-- The constructor call `time(hour, minute, second)`; none is its ValueError. -/
def Time.make (hour minute second : Nat) : Option Time :=
  if h : hour < 24 ∧ minute < 60 ∧ second < 60 then
    some {hour, minute, second, valid := ⟨h.1,h.2.1,h.2.2,by decide⟩}
  else none

/-- `datetime.timedelta`, normalised. -/
structure Timedelta where
  days : Int
  seconds : Nat
  microseconds : Nat
  valid : seconds < 86400 ∧ microseconds < 1000000
  deriving DecidableEq, Repr

def Timedelta.ofSeconds (seconds : Nat) : Timedelta :=
  ⟨(seconds/86400 : Nat),seconds%86400,0,Nat.mod_lt _ (by decide),by decide⟩

inductive Temporal where
  | date (date : Date)
  | datetime (date : Date) (time : Time)
  | time (time : Time)
  | timedelta (delta : Timedelta)
  deriving DecidableEq, Repr

/-- `type(value).__name__`. -/
def Temporal.typeName : Temporal → String
  | date _ => "date"
  | datetime .. => "datetime"
  | time _ => "time"
  | timedelta _ => "timedelta"

/-! ### The wire format -/

namespace TemporalDefinition
variable (definition : TemporalDefinition)

/-- The hour, minute and second of a clock time or a duration. -/
def readTime (hour minute second : Nat) : Option Temporal :=
  if hour > definition.maximumHour ∨ minute > 59 ∨ second > 59 then none
  else if definition.kind = .clock then (Time.make hour minute second).map .time
  else some (.timedelta (.ofSeconds (hour*3600+minute*60+second)))

/-- `_decode_temporal`. -/
def decode (edt : Bytes) : Option Temporal :=
  if edt.length ≠ definition.size then none
  else
    match definition.kind,edt.map UInt8.toNat with
    | .date,[high,low,month,day] => (Date.make (high*256+low) month day).map .date
    | .datetime,high :: low :: month :: day :: hour :: minute :: second => do
      let date ← Date.make (high*256+low) month day
      let time ← Time.make hour minute (second.headD 0)
      pure (.datetime date time)
    | .clock,hour :: minute :: second => definition.readTime hour minute (second.headD 0)
    | .duration,hour :: minute :: second => definition.readTime hour minute (second.headD 0)
    | _,_ => none

def dateBytes (date : Date) : Bytes :=
  [UInt8.ofNat (date.year/256),UInt8.ofNat date.year,UInt8.ofNat date.month,UInt8.ofNat date.day]

/-- The hour, minute and second that a clock time or a duration is written as. -/
def writeTime (hour minute second : Nat) : Except Failure Bytes :=
  if hour > definition.maximumHour then .error (.valueError "Hour out of range")
  else if definition.size = 2 ∧ second ≠ 0 then
    .error (.valueError "Seconds cannot be encoded at minute precision")
  else .ok ([UInt8.ofNat hour,UInt8.ofNat minute,UInt8.ofNat second].take definition.size)

/-- `_encode_temporal` for a temporal value. -/
def encode (value : Temporal) : Except Failure Bytes :=
  match definition.kind,value with
  | .date,.date date => .ok (dateBytes date)
  | .datetime,.datetime date time =>
    if time.aware ∨ time.fold ∨ time.microsecond ≠ 0 then
      .error (.valueError "Expected naive datetime without fold or microseconds")
    else if definition.size = 6 ∧ time.second ≠ 0 then
      .error (.valueError "Seconds cannot be encoded at minute precision")
    else
      .ok ((dateBytes date ++ [UInt8.ofNat time.hour,UInt8.ofNat time.minute,UInt8.ofNat time.second]).take
        definition.size)
  | .clock,.time time =>
    if time.aware ∨ time.fold ∨ time.microsecond ≠ 0 then
      .error (.valueError "Expected naive time without fold or microseconds")
    else definition.writeTime time.hour time.minute time.second
  | .duration,.timedelta delta =>
    if delta.days < 0 ∨ delta.microseconds ≠ 0 then
      .error (.valueError "Expected nonnegative duration with whole seconds")
    else
      let seconds := delta.days.toNat*86400+delta.seconds
      definition.writeTime (seconds/3600) (seconds%3600/60) (seconds%3600%60)
  | kind,value => .error (.valueError s!"Invalid value type for {kind.text}: {value.typeName}")

end TemporalDefinition

end Pyhems.Codec

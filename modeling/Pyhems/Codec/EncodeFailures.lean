import Pyhems.Codec.TemporalCodec
import Pyhems.Library.FloatFormat

/-! What encoding raises, for every number that Python has: integers of any size, floats, infinities
and NaN. Conversions and divisions fail before the checks that raise ValueError are reached. -/
namespace Pyhems.Codec
open Protocol Library Fallible
open Get (Epc)

/-! ### Numbers -/

/-- A float. Zeros of either sign behave alike here. -/
inductive Double where
  | finite (x : binary64.Rounded)
  | infinity (negative : Bool)
  | nan
  deriving DecidableEq

inductive Number where
  | int (n : Int)
  | float (x : Double)
  deriving DecidableEq

namespace Double

/-- The float of an exact result. -/
def ofRat (q : ℚ) : Double := (binary64.round q).elim (.infinity (decide (q < 0))) .finite

/-- `x / y`. -/
def divide : Double → Double → Except Failure Double
  | x, .finite d =>
    if d.value = 0 then .error (.zeroDivisionError "division by zero")
    else
      match x with
      | .finite n => .ok (.ofRat (n.value/d.value))
      | .infinity negative => .ok (.infinity (negative != decide (d.value < 0)))
      | .nan => .ok .nan
  | .finite _, .infinity _ => .ok (.ofRat 0)
  | _, _ => .ok .nan

def roundInt : Double → Except Failure Int
  | .finite x => .ok (roundHalfEven x.value)
  | .infinity _ => .error (.overflowError "cannot convert float infinity to integer")
  | .nan => .error (.valueError "cannot convert float NaN to integer")

/-- `rel_tol`. -/
def tolerance : ℚ := binary64.nearest (1/1000000000)

/-- `math.isclose(x, y, rel_tol=1e-9)` on floats. -/
def isClose : Double → Double → Bool
  | .finite a, .finite b =>
    -- A difference that overflows is within no tolerance.
    (binary64.round (b.value-a.value)).any fun diff =>
      decide (|diff.value| ≤ |binary64.nearest (tolerance*b.value)|) ||
        decide (|diff.value| ≤ |binary64.nearest (tolerance*a.value)|)
  | .infinity a, .infinity b => decide (a = b)
  | _, _ => false

end Double

namespace Number

/-- `float(x)`. -/
def toDouble : Number → Except Failure Double
  | .int n => (binary64.round n).elim (.error (.overflowError "int too large to convert to float"))
      fun x => .ok (.finite x)
  | .float x => .ok x

/-- `x / y`. -/
def divide : Number → Number → Except Failure Double
  | .int n, .int d =>
    if d = 0 then .error (.zeroDivisionError "division by zero")
    else
      (binary64.round ((n : ℚ)/d)).elim
        (.error (.overflowError "integer division result too large for a float")) fun x => .ok (.finite x)
  | x, y => do (← x.toDouble).divide (← y.toDouble)

def roundInt : Number → Except Failure Int
  | .int n => .ok n
  | .float x => x.roundInt

/-- `math.isclose(x, y, rel_tol=1e-9)`. -/
def isClose (x y : Number) : Except Failure Bool := do
  let a ← x.toDouble
  let b ← y.toDouble
  pure (a.isClose b)

/-- A number of a definition, where `ints` tells which whole numbers are held as integers. -/
def hold (ints : ℚ → Bool) (q : ℚ) : Number :=
  if ints q ∧ q.den = 1 then .int q.num else .float (.ofRat q)

end Number

/-! ### Encoding -/

/-- What is passed to `encode`. -/
inductive Argument where
  | number (x : Number)
  | text (s : String)
  | temporal (t : Temporal)
  | other

namespace PropertyCodec
variable (ints : ℚ → Bool)

/-- `round(value / self.scale) if self.scale != 1.0 else round(value)`. -/
def scaled (scale : ℚ) (value : Number) : Except Failure Int :=
  if scale ≠ 1 then do (← value.divide (.hold ints scale)).roundInt else value.roundInt

/-- The range check and `to_bytes`. Numbers are left out of the texts; one that is too long to be
formatted is a ValueError as well. -/
def pack (signed : Bool) (byteCount : Nat) (minimum maximum : Option ℚ) (mraFormat : String) (raw : Int) :
    Except Failure Bytes :=
  if !inRange minimum maximum raw then .error (.valueError "Value out of range")
  else
    match signedBytes signed byteCount raw with
    | some edt => .ok edt
    | none => .error (.valueError s!"Value out of range for format {mraFormat}")

/-- `NumericCodec.encode`. -/
def encodeNumeric (mraFormat : String) (scale : ℚ) (minimum maximum : Option ℚ) (byteOffset : Nat)
    (coefficients : List (Epc × PropertyCodec)) (value : Number) : Except Failure Bytes :=
  if coefficients ≠ [] then
    .error (.valueError ("NumericCodec.encode does not support coefficients; resolving the coefficient " ++
      "requires device state, which encode() does not receive"))
  else do
    rejectByteOffset "NumericCodec" byteOffset
    match formatInfo.lookup mraFormat with
    | none => .error (.valueError s!"Unknown MRA format: {mraFormat}")
    | some (signed,byteCount) => do
      let raw ← scaled ints scale value
      pack signed byteCount minimum maximum mraFormat raw

/-- The loop of `NumericValueCodec.encode`. -/
def encodeEntry (value : Number) : List (Nat × ℚ) → Except Failure Bytes
  | [] => .error (.valueError "Unknown numeric value")
  | (edt,val) :: entries => do
    if ← (Number.hold ints val).isClose value then singleByte edt else encodeEntry value entries

/-- `NumericValueCodec.encode`. -/
def encodeNumericValue (byEdt : List (Nat × ℚ)) (byteOffset : Nat) (value : Number) : Except Failure Bytes := do
  rejectByteOffset "NumericValueCodec" byteOffset
  encodeEntry ints value byEdt

/-- `encode`, for every argument. -/
def encodeArgument : PropertyCodec → Argument → Except Failure Bytes
  | .numeric mraFormat scale minimum maximum byteOffset coefficients, .number value =>
    encodeNumeric ints mraFormat scale minimum maximum byteOffset coefficients value
  | .numericValue byEdt byteOffset, .number value => encodeNumericValue ints byEdt byteOffset value
  | codec, .text key => codec.encode .exact (.text key)
  | codec, .temporal value => codec.encode .exact (.temporal value)
  | .temporal definition _, _ => .error (.valueError s!"Invalid value type for {definition.kind.text}")
  | _, _ => .error (.typeError "value of another type")

/-- The arguments of a codec: numbers for numbers, texts for states, and anything for temporal values. -/
inductive Takes : PropertyCodec → Argument → Prop where
  | numeric (mraFormat : String) (scale : ℚ) (minimum maximum : Option ℚ) (byteOffset : Nat)
      (coefficients : List (Epc × PropertyCodec)) (value : Number) :
      Takes (.numeric mraFormat scale minimum maximum byteOffset coefficients) (.number value)
  | numericValue (byEdt : List (Nat × ℚ)) (byteOffset : Nat) (value : Number) :
      Takes (.numericValue byEdt byteOffset) (.number value)
  | enum (byKey : List (String × Nat)) (byEdt : List (Nat × String)) (byteOffset : Nat) (key : String) :
      Takes (.enum byKey byEdt byteOffset) (.text key)
  | temporal (definition : TemporalDefinition) (enumValues : List EnumValue) (argument : Argument) :
      Takes (.temporal definition enumValues) argument

end PropertyCodec

/-! ### When encoding stays within its documentation -/

/-- A quotient that is defined and no infinity. -/
def Double.StaysInRange : Double → Double → Prop
  | .finite n, .finite d => d.value ≠ 0 ∧ |n.value/d.value| < binary64.threshold
  | .nan, .finite d => d.value ≠ 0
  | .infinity _, .finite _ => False
  | _, _ => True

namespace Number

/-- Floats have room for an integer of this size. -/
def Bounded : Number → Prop
  | .int n => |(n : ℚ)| < binary64.threshold
  | .float _ => True

def asDouble : Number → Double
  | .int n => .ofRat n
  | .float x => x

/-- Only integers are divided without being made floats first. -/
def StaysInRange : Number → Number → Prop
  | .int n, .int d => d ≠ 0 ∧ |(n : ℚ)/d| < binary64.threshold
  | x, d => x.Bounded ∧ d.Bounded ∧ x.asDouble.StaysInRange d.asDouble

end Number

namespace PropertyCodec
variable (ints : ℚ → Bool)

/-- The scaled number is finite, or NaN. -/
def Scalable (scale : ℚ) (value : Number) : Prop :=
  if scale ≠ 1 then value.StaysInRange (.hold ints scale) else ∀ negative, value ≠ .float (.infinity negative)

/-- The number and the entries up to its own are compared as floats. -/
def Comparable (value : Number) (entries : List (Nat × ℚ)) : Prop :=
  ∀ before entry after, entries = before ++ entry :: after →
    (∀ earlier ∈ before, (Number.hold ints earlier.2).asDouble.isClose value.asDouble = false) →
    (Number.hold ints entry.2).Bounded

/-- The arguments that no exception besides `ValueError` comes from. -/
def Encodable : PropertyCodec → Argument → Prop
  | .numeric mraFormat scale _ _ byteOffset coefficients, .number value =>
    coefficients = [] → byteOffset = 0 → (formatInfo.lookup mraFormat).isSome → Scalable ints scale value
  | .numericValue byEdt byteOffset, .number value =>
    byteOffset = 0 → value.Bounded ∧ Comparable ints value byEdt
  | .temporal definition enumValues, .text key =>
    ∀ state, enumValues.find? (fun state => state.key = key) = some state → state.edt < 256^definition.size
  | _, _ => True

end PropertyCodec

/-! ### Conversions and divisions -/

theorem not_onlyValueError_overflow {α : Type} (text : String) :
    ¬ OnlyValueError (.error (.overflowError text) : Except Failure α) := by
  simp [OnlyValueError]

namespace Double
variable {q : ℚ} {x d : Double}

theorem ofRat_eq_infinity_iff : (∃ negative, ofRat q = .infinity negative) ↔ binary64.threshold ≤ |q| := by
  rw [← FloatFormat.round_eq_none,ofRat]
  cases binary64.round q <;> simp

theorem onlyValueError_roundInt : OnlyValueError x.roundInt ↔ ¬ ∃ negative, x = .infinity negative := by
  cases x with
  | finite x => simp [roundInt,OnlyValueError]
  | infinity negative => simp [roundInt,OnlyValueError]
  | nan => simp [roundInt,OnlyValueError]

theorem onlyValueError_roundInt_ofRat : OnlyValueError (ofRat q).roundInt ↔ |q| < binary64.threshold := by
  rw [onlyValueError_roundInt,ofRat_eq_infinity_iff,not_le]

/-- A quotient is rounded without other exceptions, if it is defined and no infinity. -/
theorem onlyValueError_divide : OnlyValueError (x.divide d >>= roundInt) ↔ x.StaysInRange d := by
  cases d with
  | finite d =>
    by_cases hzero : d.value = 0
    · have hfails : x.divide (.finite d) = .error (.zeroDivisionError "division by zero") := by
        unfold divide
        exact if_pos hzero
      rw [hfails]
      cases x <;> simp [StaysInRange,OnlyValueError,bind,Except.bind,hzero]
    · cases x with
      | finite n =>
        have hdivide : divide (.finite n) (.finite d) = .ok (.ofRat (n.value/d.value)) := if_neg hzero
        rw [hdivide]
        exact onlyValueError_roundInt_ofRat.trans (and_iff_right hzero).symm
      | infinity negative =>
        have hdivide : divide (.infinity negative) (.finite d) =
            .ok (.infinity (negative != decide (d.value < 0))) := if_neg hzero
        rw [hdivide]
        have hfails : ¬ OnlyValueError (infinity (negative != decide (d.value < 0))).roundInt := fun h =>
          onlyValueError_roundInt.mp h ⟨_,rfl⟩
        exact ⟨fun h => absurd h hfails,fun h => absurd h id⟩
      | nan =>
        have hdivide : divide .nan (.finite d) = .ok .nan := if_neg hzero
        rw [hdivide]
        exact ⟨fun _ => hzero,fun _ => onlyValueError_valueError _⟩
  | infinity negative =>
    cases x with
    | finite n => exact onlyValueError_roundInt_ofRat.trans ⟨fun _ => trivial,fun _ => by decide +kernel⟩
    | infinity negative => exact ⟨fun _ => trivial,fun _ => onlyValueError_valueError _⟩
    | nan => exact ⟨fun _ => trivial,fun _ => onlyValueError_valueError _⟩
  | nan =>
    cases x <;> exact ⟨fun _ => trivial,fun _ => onlyValueError_valueError _⟩

end Double

namespace Number
variable {x y d : Number}

theorem bounded_int {n : Int} : (int n).Bounded ↔ |(n : ℚ)| < binary64.threshold := Iff.rfl

theorem toDouble_of_bounded (h : x.Bounded) : x.toDouble = .ok x.asDouble := by
  cases x with
  | int n =>
    rw [bounded_int] at h
    have hround := FloatFormat.round_eq_some h
    rw [toDouble,asDouble,Double.ofRat,hround]
    rfl
  | float x => rfl

theorem toDouble_of_not_bounded (h : ¬ x.Bounded) :
    x.toDouble = .error (.overflowError "int too large to convert to float") := by
  cases x with
  | int n =>
    rw [bounded_int,not_lt] at h
    rw [toDouble,FloatFormat.round_eq_none.mpr h]
    rfl
  | float x => exact absurd trivial h

/-- What floats have no room for is found out before it is used. -/
theorem onlyValueError_toDouble_bind {α : Type} {f : Double → Except Failure α} :
    OnlyValueError (x.toDouble >>= f) ↔ x.Bounded ∧ OnlyValueError (f x.asDouble) := by
  by_cases h : x.Bounded
  · rw [toDouble_of_bounded h]
    exact (and_iff_right h).symm
  · rw [toDouble_of_not_bounded h]
    exact ⟨fun hfails => absurd hfails (not_onlyValueError_overflow _),fun hb => absurd hb.1 h⟩

theorem onlyValueError_divide_int (n m : Int) :
    OnlyValueError ((int n).divide (.int m) >>= Double.roundInt) ↔ (int n).StaysInRange (.int m) := by
  rw [divide,StaysInRange]
  by_cases hzero : m = 0
  · rw [if_pos hzero]
    simp [OnlyValueError,bind,Except.bind,hzero]
  · rw [if_neg hzero,and_iff_right hzero]
    by_cases hrange : |(n : ℚ)/m| < binary64.threshold
    · rw [FloatFormat.round_eq_some hrange]
      exact iff_of_true (failsOnly_ok _) hrange
    · rw [FloatFormat.round_eq_none.mpr (not_lt.mp hrange)]
      exact iff_of_false (not_onlyValueError_overflow _) hrange

theorem onlyValueError_divide_float (hdivide : x.divide d = x.toDouble >>= fun a => d.toDouble >>= a.divide)
    (hrange : x.StaysInRange d ↔ x.Bounded ∧ d.Bounded ∧ x.asDouble.StaysInRange d.asDouble) :
    OnlyValueError (x.divide d >>= Double.roundInt) ↔ x.StaysInRange d := by
  rw [hdivide,hrange,bind_assoc,onlyValueError_toDouble_bind,bind_assoc,onlyValueError_toDouble_bind,
    Double.onlyValueError_divide]

theorem onlyValueError_divide : OnlyValueError (x.divide d >>= Double.roundInt) ↔ x.StaysInRange d := by
  rcases x with n | x
  · rcases d with m | d
    · exact onlyValueError_divide_int n m
    · exact onlyValueError_divide_float rfl Iff.rfl
  · exact onlyValueError_divide_float rfl Iff.rfl

/-- Rounding a number that is not scaled. -/
theorem onlyValueError_roundInt : OnlyValueError x.roundInt ↔ ∀ negative, x ≠ .float (.infinity negative) := by
  cases x with
  | int n => simp [roundInt,OnlyValueError]
  | float x => simpa [roundInt] using Double.onlyValueError_roundInt

theorem onlyValueError_isClose_bind {α : Type} {f : Bool → Except Failure α} :
    OnlyValueError (x.isClose y >>= f) ↔
      x.Bounded ∧ y.Bounded ∧ OnlyValueError (f (x.asDouble.isClose y.asDouble)) := by
  rw [isClose,bind_assoc,onlyValueError_toDouble_bind,bind_assoc,onlyValueError_toDouble_bind]
  rfl

end Number

/-! ### Every codec -/

namespace PropertyCodec
variable {ints : ℚ → Bool} {value : Number}

theorem onlyValueError_singleByte (edt : Nat) : OnlyValueError (singleByte edt) := by
  unfold singleByte
  split
  · exact failsOnly_ok _
  · exact onlyValueError_valueError _

theorem onlyValueError_pack {signed : Bool} {byteCount : Nat} {minimum maximum : Option ℚ} {mraFormat : String}
    {raw : Int} : OnlyValueError (pack signed byteCount minimum maximum mraFormat raw) := by
  unfold pack
  split
  · exact onlyValueError_valueError _
  · split
    · exact failsOnly_ok _
    · exact onlyValueError_valueError _

theorem onlyValueError_scaled {scale : ℚ} :
    OnlyValueError (scaled ints scale value) ↔ Scalable ints scale value := by
  unfold scaled Scalable
  split
  · exact Number.onlyValueError_divide
  · exact Number.onlyValueError_roundInt

/-- A non-zero offset is always a ValueError. -/
theorem onlyValueError_rejectByteOffset_bind {α : Type} {codec : String} {byteOffset : Nat}
    {rest : Unit → Except Failure α} :
    OnlyValueError (rejectByteOffset codec byteOffset >>= rest) ↔
      (byteOffset = 0 → OnlyValueError (rest ())) := by
  by_cases h : byteOffset = 0
  · rw [rejectByteOffset,if_pos h]
    exact ⟨fun hrest _ => hrest,fun hrest => hrest h⟩
  · rw [rejectByteOffset,if_neg h]
    exact iff_of_true (onlyValueError_valueError _) fun hzero => absurd hzero h

theorem onlyValueError_encodeNumeric {mraFormat : String} {scale : ℚ} {minimum maximum : Option ℚ}
    {byteOffset : Nat} {coefficients : List (Epc × PropertyCodec)} :
    OnlyValueError (encodeNumeric ints mraFormat scale minimum maximum byteOffset coefficients value) ↔
      (coefficients = [] → byteOffset = 0 → (formatInfo.lookup mraFormat).isSome →
        Scalable ints scale value) := by
  unfold encodeNumeric
  by_cases hcoefficients : coefficients = []
  · rw [if_neg (not_not.mpr hcoefficients),imp_iff_right hcoefficients]
    refine onlyValueError_rejectByteOffset_bind.trans (forall_congr' fun _ => ?_)
    cases formatInfo.lookup mraFormat with
    | none => exact iff_of_true (onlyValueError_valueError _) fun h => by cases h
    | some format =>
      rw [imp_iff_right Option.isSome_some,← onlyValueError_scaled]
      exact failsOnly_bind.trans (and_iff_left fun raw _ => onlyValueError_pack)
  · rw [if_pos hcoefficients]
    exact iff_of_true (onlyValueError_valueError _) fun h => absurd h hcoefficients

theorem comparable_cons {entry : Nat × ℚ} {entries : List (Nat × ℚ)} :
    Comparable ints value (entry :: entries) ↔ (Number.hold ints entry.2).Bounded ∧
      ((Number.hold ints entry.2).asDouble.isClose value.asDouble = false → Comparable ints value entries) := by
  constructor
  · intro h
    refine ⟨h [] entry entries rfl (by simp),fun hfar before entry' after he hbefore => ?_⟩
    refine h (entry :: before) entry' after (by rw [he,List.cons_append]) ?_
    exact List.forall_mem_cons.mpr ⟨hfar,hbefore⟩
  · rintro ⟨hfirst,hrest⟩ before entry' after he hbefore
    rcases List.cons_eq_append_iff.mp he with ⟨rfl,hentry⟩ | ⟨before,rfl,hentries⟩
    · cases hentry
      exact hfirst
    · obtain ⟨hfar,hbefore⟩ := List.forall_mem_cons.mp hbefore
      exact hrest hfar before entry' after hentries hbefore

/-- The loop stops at the first entry that is close, or that floats have no room for. -/
theorem onlyValueError_encodeEntry (hvalue : value.Bounded) (entries : List (Nat × ℚ)) :
    OnlyValueError (encodeEntry ints value entries) ↔ Comparable ints value entries := by
  induction entries with
  | nil => exact iff_of_true (onlyValueError_valueError _) fun before entry after he => by simp at he
  | cons entry entries ih =>
    obtain ⟨edt,val⟩ := entry
    rw [encodeEntry,Number.onlyValueError_isClose_bind,comparable_cons,and_iff_right hvalue]
    refine and_congr_right fun _ => ?_
    cases hclose : (Number.hold ints val).asDouble.isClose value.asDouble with
    | true => exact iff_of_true (onlyValueError_singleByte edt) fun h => by cases h
    | false => exact ih.trans (imp_iff_right rfl).symm

theorem onlyValueError_encodeNumericValue {byEdt : List (Nat × ℚ)} {byteOffset : Nat} (hne : byEdt ≠ []) :
    OnlyValueError (encodeNumericValue ints byEdt byteOffset value) ↔
      (byteOffset = 0 → value.Bounded ∧ Comparable ints value byEdt) := by
  refine onlyValueError_rejectByteOffset_bind.trans (forall_congr' fun _ => ?_)
  by_cases hvalue : value.Bounded
  · rw [onlyValueError_encodeEntry hvalue,and_iff_right hvalue]
  · refine iff_of_false ?_ fun h => hvalue h.1
    obtain ⟨entry,entries,rfl⟩ := List.exists_cons_of_ne_nil hne
    rw [encodeEntry,Number.onlyValueError_isClose_bind]
    exact fun h => hvalue h.2.1

theorem onlyValueError_enum (byKey : List (String × Nat)) (byEdt : List (Nat × String)) (byteOffset : Nat)
    (key : String) : OnlyValueError (encodeArgument ints (.enum byKey byEdt byteOffset) (.text key)) := by
  unfold encodeArgument encode
  refine onlyValueError_rejectByteOffset_bind.mpr fun _ => ?_
  split
  · exact onlyValueError_singleByte _
  · exact onlyValueError_valueError _

theorem onlyValueError_stateBytes {state : EnumValue} {size : Nat} :
    OnlyValueError (stateBytes state size) ↔ state.edt < 256^size := by
  by_cases hroom : state.edt < 256^size
  · rw [stateBytes,if_pos hroom]
    exact iff_of_true (failsOnly_ok _) hroom
  · rw [stateBytes,if_neg hroom]
    exact iff_of_false (not_onlyValueError_overflow _) hroom

theorem onlyValueError_temporal (definition : TemporalDefinition) (enumValues : List EnumValue)
    (argument : Argument) : OnlyValueError (encodeArgument ints (.temporal definition enumValues) argument) ↔
      Encodable ints (.temporal definition enumValues) argument := by
  cases argument with
  | text key =>
    have hencode : encodeArgument ints (.temporal definition enumValues) (.text key) =
        encode .exact (.temporal definition enumValues) (.text key) := rfl
    rw [hencode,encode,Encodable]
    cases hstate : enumValues.find? fun state => state.key = key with
    | none => exact iff_of_true (onlyValueError_valueError _) fun _ he => by cases he
    | some state =>
      exact onlyValueError_stateBytes.trans ⟨fun h _ he => by cases he; exact h,fun h => h state rfl⟩
  | temporal value => exact iff_of_true definition.onlyValueError_encode trivial
  | number value => exact iff_of_true (onlyValueError_valueError _) trivial
  | other => exact iff_of_true (onlyValueError_valueError _) trivial

/-- Tables of selected codecs have entries. -/
theorem ne_nil_of_getCodec {registry : Registry} {entity : EntityDefinition} {classCode : Option Nat}
    {byEdt : List (Nat × ℚ)} {byteOffset : Nat}
    (h : getCodec registry entity classCode = .ok (.numericValue byEdt byteOffset)) : byEdt ≠ [] := by
  unfold getCodec getCodecWith at h
  split at h
  · split at h <;> cases h
  · split at h
    · next entry entries _ =>
      cases h
      have hkey : entry.edt ∈ (Dict.ofPairs ((entry :: entries).map fun nv => (nv.edt,nv.value))).map Prod.fst :=
        Dict.mem_keys_ofPairs.mpr (by simp)
      intro hempty
      rw [hempty] at hkey
      cases hkey
    · split at h
      · split at h
        · obtain ⟨_,_,he⟩ := bind_eq_ok.mp h
          cases he
        · cases h
      · split at h
        · obtain ⟨_,_,he⟩ := bind_eq_ok.mp h
          cases he
        · cases h

/-- `ValueError` is all that encoding raises, exactly if the argument is encodable. -/
theorem encode_onlyValueError_iff {registry : Registry} {entity : EntityDefinition} {classCode : Option Nat}
    {codec : PropertyCodec} (hcodec : getCodec registry entity classCode = .ok codec) (ints : ℚ → Bool)
    {argument : Argument} (hargument : codec.Takes argument) :
    OnlyValueError (codec.encodeArgument ints argument) ↔ codec.Encodable ints argument := by
  cases hargument with
  | numeric => exact onlyValueError_encodeNumeric
  | numericValue => exact onlyValueError_encodeNumericValue (ne_nil_of_getCodec hcodec)
  | enum byKey byEdt byteOffset key => exact iff_of_true (onlyValueError_enum _ _ _ _) trivial
  | temporal definition enumValues argument => exact onlyValueError_temporal _ _ _

/-- A temperature in tenths of a degree. -/
def temperature : EntityDefinition where
  id := "temperature"
  epc := 0xE0
  nameEn := "Measured temperature value"
  nameJa := ""
  readable := true
  writable := false
  format := some "int16"
  multipleOf := 1/10

/-- A level without a scale. -/
def level : EntityDefinition where
  id := "level"
  epc := 0xE1
  nameEn := "Level"
  nameJa := ""
  readable := true
  writable := true
  format := some "uint8"

theorem encode_onlyValueError_iff_temperature :
    ¬ OnlyValueError (encodeArgument (fun _ => false) (.numeric "int16" (1/10) none none 0 [])
      (.number (.int (10^400)))) := by
  have hcodec : getCodec ⟨fun _ => []⟩ temperature none = .ok (.numeric "int16" (1/10) none none 0 []) := rfl
  rw [encode_onlyValueError_iff hcodec (fun _ => false) (.numeric ..)]
  intro h
  have hscalable := h rfl rfl rfl
  rw [Scalable,if_pos (by norm_num)] at hscalable
  have hbounded : |((10^400 : Int) : ℚ)| < binary64.threshold := hscalable.1
  revert hbounded
  decide +kernel

/-- A codec without a scale rounds an infinity as it is. -/
theorem not_onlyValueError : ¬ ∀ (registry : Registry) (entity : EntityDefinition) (classCode : Option Nat)
    (codec : PropertyCodec), getCodec registry entity classCode = .ok codec →
    ∀ (ints : ℚ → Bool) (argument : Argument), codec.Takes argument →
      OnlyValueError (codec.encodeArgument ints argument) := by
  intro h
  have hcodec : getCodec ⟨fun _ => []⟩ level none = .ok (.numeric "uint8" 1 none none 0 []) := rfl
  have hraises : encodeArgument (fun _ => false) (.numeric "uint8" 1 none none 0 [])
      (.number (.float (.infinity false))) =
        .error (.overflowError "cannot convert float infinity to integer") := rfl
  obtain ⟨text,htext⟩ :=
    h _ _ _ _ hcodec (fun _ => false) (.number (.float (.infinity false))) (.numeric ..) _ hraises
  cases htext

/-! ### Agreement with rounding arithmetic -/

theorem toDouble_hold (d : binary64.Rounded) : (Number.hold ints d.value).toDouble = .ok (.finite d) := by
  unfold Number.hold
  split
  · next h =>
    have hwhole : (d.value.num : ℚ) = d.value := Rat.coe_int_num_of_den_eq_one h.2
    rw [Number.toDouble,hwhole,FloatFormat.round_value]
    rfl
  · rw [Number.toDouble,Double.ofRat,FloatFormat.round_value]
    rfl

theorem divide_hold {x d : binary64.Rounded}
    (h : Number.StaysInRange (.float (.finite x)) (.hold ints d.value)) :
    ∃ quotient : binary64.Rounded, quotient.value = binary64.nearest (x.value/d.value) ∧
      Number.divide (.float (.finite x)) (.hold ints d.value) = .ok (.finite quotient) := by
  have hsides : Number.divide (.float (.finite x)) (.hold ints d.value) =
      (Number.hold ints d.value).toDouble >>= (Double.finite x).divide := by
    cases Number.hold ints d.value <;> rfl
  obtain ⟨hbounded,hrange⟩ : (Number.hold ints d.value).Bounded ∧
      (Double.finite x).StaysInRange (Number.hold ints d.value).asDouble := by
    cases hnumber : Number.hold ints d.value <;> exact (hnumber ▸ h).2
  have hdouble : (Number.hold ints d.value).asDouble = .finite d :=
    Except.ok.inj ((Number.toDouble_of_bounded hbounded).symm.trans (toDouble_hold d))
  rw [hdouble] at hrange
  obtain ⟨hzero,hlt⟩ := hrange
  obtain ⟨quotient,hround,hvalue⟩ : ∃ quotient : binary64.Rounded,
      binary64.round (x.value/d.value) = some quotient ∧ quotient.value = binary64.nearest (x.value/d.value) :=
    ⟨_,FloatFormat.round_eq_some hlt,rfl⟩
  have hdivide : Double.divide (.finite x) (.finite d) = .ok (.ofRat (x.value/d.value)) := if_neg hzero
  refine ⟨quotient,hvalue,?_⟩
  rw [hsides,toDouble_hold]
  refine hdivide.trans ?_
  rw [Double.ofRat,hround]
  rfl

theorem scaled_finite {x d : binary64.Rounded} (h : Scalable ints d.value (.float (.finite x))) :
    scaled ints d.value (.float (.finite x)) =
      .ok (roundHalfEven (if d.value ≠ 1 then binary64.nearest (x.value/d.value) else x.value)) := by
  unfold scaled
  unfold Scalable at h
  split
  · next hscale =>
    rw [if_pos hscale] at h
    obtain ⟨quotient,hvalue,hdivide⟩ := divide_hold h
    rw [hdivide,← hvalue]
    rfl
  · rfl

/-- On finite floats, encodable numbers are encoded over the arithmetic that rounds quotients. -/
theorem encodeArgument_finite {mraFormat : String} {x d : binary64.Rounded} {minimum maximum : Option ℚ}
    {byteOffset : Nat} {coefficients : List (Epc × PropertyCodec)} (product : ℚ → ℚ → ℚ)
    (h : Encodable ints (.numeric mraFormat d.value minimum maximum byteOffset coefficients)
      (.number (.float (.finite x)))) :
    encodeArgument ints (.numeric mraFormat d.value minimum maximum byteOffset coefficients)
        (.number (.float (.finite x))) =
      encode ⟨product,fun a b => binary64.nearest (a/b)⟩
        (.numeric mraFormat d.value minimum maximum byteOffset coefficients) (.number x.value) := by
  rw [encodeArgument,encode,encodeNumeric]
  by_cases hcoefficients : coefficients = []
  · rw [if_neg (not_not.mpr hcoefficients),if_neg (not_not.mpr hcoefficients)]
    by_cases hoffset : byteOffset = 0
    · rw [rejectByteOffset,if_pos hoffset]
      cases hformat : formatInfo.lookup mraFormat with
      | none => rfl
      | some format =>
        have hscaled := scaled_finite (h hcoefficients hoffset (by rw [hformat]; rfl))
        obtain ⟨signed,byteCount⟩ := format
        simp only [hscaled]
        rfl
    · rw [rejectByteOffset,if_neg hoffset]
      rfl
  · rw [if_pos hcoefficients,if_pos hcoefficients]
    rfl

end PropertyCodec

end Pyhems.Codec

import Pyhems.Codec.Codecs
import Pyhems.Library.Fallible
import Pyhems.Library.FloatFormat

/-! Numbers over exact arithmetic: what is read is written back, and what is written is read back to
half a unit of the scale. -/
namespace Pyhems.Codec
open Protocol Library

/-! ### Rounding -/

theorem roundHalfEven_eq (q : ℚ) : roundHalfEven q = halfEven q := rfl

/-! ### Fixed widths -/

/-- What a format has room for. -/
def InFormat (signed : Bool) (count : Nat) (n : Int) : Prop :=
  if signed then -(256^count : Int) ≤ 2*n ∧ 2*n < 256^count else 0 ≤ n ∧ n < 256^count

variable {signed : Bool} {count : Nat} {n : Int} {edt : Bytes}

theorem inFormat_signedNumber (signed : Bool) (edt : Bytes) :
    InFormat signed edt.length (signedNumber signed edt) := by
  have hlt : (fromBytes edt : Int) < 256^edt.length := by exact_mod_cast BigEndian.value_lt edt
  unfold InFormat signedNumber
  cases signed with
  | false => simpa using hlt
  | true =>
    simp only [if_true,true_and]
    split
    · next h =>
      have h' : (256^edt.length : Int) ≤ 2*fromBytes edt := by exact_mod_cast h
      omega
    · next h =>
      have h' : (2*fromBytes edt : Int) < 256^edt.length := by exact_mod_cast Nat.not_le.mp h
      omega

theorem signedBytes_eq_none : signedBytes signed count n = none ↔ ¬ InFormat signed count n := by
  unfold signedBytes InFormat
  cases signed with
  | false => by_cases h : 0 ≤ n ∧ n < 256^count <;> simp [h]
  | true => by_cases h : -(256^count : Int) ≤ 2*n ∧ 2*n < 256^count <;> simp [h]

/-- A number is written back to the bytes that it was read from. -/
theorem signedBytes_signedNumber (signed : Bool) (edt : Bytes) :
    signedBytes signed edt.length (signedNumber signed edt) = some edt := by
  have hfits := inFormat_signedNumber signed edt
  have hlt : (fromBytes edt : Int) < 256^edt.length := by exact_mod_cast BigEndian.value_lt edt
  have hdigits : BigEndian.digits edt.length (fromBytes edt) = edt := BigEndian.digits_value edt
  unfold signedBytes
  cases signed with
  | false =>
    rw [InFormat,if_neg Bool.false_ne_true] at hfits
    simp only [Bool.false_eq_true,if_false]
    rw [if_pos hfits]
    simp [signedNumber,hdigits]
  | true =>
    have hmod : signedNumber true edt % 256^edt.length = fromBytes edt := by
      unfold signedNumber
      simp only [true_and]
      split
      · rw [Int.sub_emod_right,Int.emod_eq_of_lt (Int.natCast_nonneg _) hlt]
      · exact Int.emod_eq_of_lt (Int.natCast_nonneg _) hlt
    rw [InFormat,if_pos rfl] at hfits
    simp only [if_true]
    rw [if_pos hfits,hmod,Int.toNat_natCast,hdigits]

/-- Bytes are read back as the number that was written. -/
theorem signedNumber_signedBytes (h : signedBytes signed count n = some edt) :
    edt.length = count ∧ signedNumber signed edt = n := by
  have hpos : (0 : Int) < 256^count := by positivity
  unfold signedBytes at h
  cases signed with
  | false =>
    simp only [Bool.false_eq_true,if_false] at h
    obtain ⟨⟨hnonneg,hlt⟩,rfl⟩ : (0 ≤ n ∧ n < 256^count) ∧ BigEndian.digits count n.toNat = edt := by
      simpa using h
    refine ⟨BigEndian.length_digits _ _,?_⟩
    have hvalue : BigEndian.value (BigEndian.digits count n.toNat) = n.toNat := by
      apply BigEndian.value_digits_of_lt
      zify
      rwa [Int.toNat_of_nonneg hnonneg]
    simp [signedNumber,fromBytes,hvalue,hnonneg]
  | true =>
    simp only [if_true] at h
    obtain ⟨⟨hleast,hgreatest⟩,rfl⟩ :
        (-(256^count : Int) ≤ 2*n ∧ 2*n < 256^count) ∧ BigEndian.digits count (n % 256^count).toNat = edt := by
      simpa using h
    refine ⟨BigEndian.length_digits _ _,?_⟩
    have hnonneg := Int.emod_nonneg n hpos.ne'
    have hvalue : (BigEndian.value (BigEndian.digits count (n % 256^count).toNat) : Int) = n % 256^count := by
      rw [BigEndian.value_digits_of_lt,Int.toNat_of_nonneg hnonneg]
      zify
      rw [Int.toNat_of_nonneg hnonneg]
      exact Int.emod_lt_of_pos n hpos
    unfold signedNumber fromBytes
    rw [BigEndian.length_digits]
    zify
    simp only [true_and,hvalue]
    rcases Int.lt_or_le n 0 with hneg | hnonneg
    · have hmod : n % 256^count = n+256^count := by
        rw [← Int.add_emod_right,Int.emod_eq_of_lt (by omega) (by omega)]
      rw [hmod,if_pos (by omega)]
      omega
    · rw [Int.emod_eq_of_lt hnonneg (by omega),if_neg (by omega)]

/-! ### The codec -/

section Numeric
variable {mraFormat : String} {scale : ℚ} {minimum maximum : Option ℚ} {context : Option Context} {value : ℚ}
  (hformat : formatInfo.lookup mraFormat = some (signed,count))
include hformat

theorem raw_of_length (hlength : edt.length = count) :
    PropertyCodec.raw mraFormat minimum maximum 0 edt =
      if inRange minimum maximum (signedNumber signed edt) then some (signedNumber signed edt) else none := by
  have hslice : slice edt 0 (0+count) = edt := by simp [slice,← hlength]
  unfold PropertyCodec.raw
  simp only [hformat,hslice]
  rw [if_neg (by omega)]

/-- A number in the range is written as its multiple of the scale. -/
theorem encode_numeric :
    PropertyCodec.encode .exact (.numeric mraFormat scale minimum maximum 0 []) (.number value) = .ok edt ↔
      inRange minimum maximum (roundHalfEven (value/scale)) = true ∧
        signedBytes signed count (roundHalfEven (value/scale)) = some edt := by
  have hquotient : (if scale ≠ 1 then Arithmetic.exact.quotient value scale else value) = value/scale := by
    split
    · rfl
    · next h => rw [not_not.mp h,div_one]
  rw [PropertyCodec.encode]
  simp only [hformat,hquotient,rejectByteOffset]
  cases hrange : inRange minimum maximum (roundHalfEven (value/scale)) with
  | false => exact ⟨nofun,fun h => nomatch h.1⟩
  | true =>
    cases signedBytes signed count (roundHalfEven (value/scale)) with
    | none => exact ⟨nofun,fun h => nomatch h.2⟩
    | some edt' =>
      exact ⟨fun h => ⟨rfl,congrArg some (Except.ok.inj h)⟩,fun h => congrArg Except.ok (Option.some.inj h.2)⟩

/-- What is read is a multiple of the scale. -/
theorem decode_numeric_exact (hlength : edt.length = count) :
    PropertyCodec.decode .exact (.numeric mraFormat scale minimum maximum 0 []) context edt =
      .ok (if inRange minimum maximum (signedNumber signed edt) then .number (signedNumber signed edt*scale)
        else .none) := by
  have hproduct : ∀ n : Int, (if scale = 1 then (n : ℚ) else Arithmetic.exact.product n scale) = n*scale := by
    intro n
    split
    · next h => rw [h,mul_one]
    · rfl
  rw [PropertyCodec.decode_numeric,raw_of_length hformat hlength]
  split
  · rw [Option.elim_some,hproduct]
  · rfl

/-- Over exact arithmetic a number is written back as it was read, and is read back to half of the
scale. -/
theorem numericCodec_roundTrip (hscale : 0 < scale) {codec : PropertyCodec}
    (hcodec : codec = .numeric mraFormat scale minimum maximum 0 []) :
    (∀ edt, edt.length = count →
      (codec.decode .exact context edt = .ok .none ↔ ¬ inRange minimum maximum (signedNumber signed edt)) ∧
      (inRange minimum maximum (signedNumber signed edt) → ∃ value,
        codec.decode .exact context edt = .ok (.number value) ∧
          codec.encode .exact (.number value) = .ok edt)) ∧
    ∀ value : ℚ,
      ((∃ edt, codec.encode .exact (.number value) = .ok edt) ↔
        inRange minimum maximum (roundHalfEven (value/scale)) ∧
          InFormat signed count (roundHalfEven (value/scale))) ∧
      ∀ edt, codec.encode .exact (.number value) = .ok edt → edt.length = count ∧ ∃ decoded,
        codec.decode .exact context edt = .ok (.number decoded) ∧ |decoded-value| ≤ scale/2 := by
  subst hcodec
  refine ⟨fun edt hlength => ?_,fun value => ⟨?_,fun edt hencode => ?_⟩⟩
  · rw [decode_numeric_exact hformat hlength]
    refine ⟨?_,fun hrange => ⟨_,by rw [if_pos hrange],?_⟩⟩
    · split
      · next hrange => exact ⟨nofun,fun h => absurd hrange h⟩
      · next hrange => exact ⟨fun _ => hrange,fun _ => rfl⟩
    · have hraw : roundHalfEven (signedNumber signed edt*scale/scale) = signedNumber signed edt := by
        rw [mul_div_cancel_right₀ _ hscale.ne',roundHalfEven_eq,halfEven_intCast]
      rw [encode_numeric hformat,hraw,← hlength]
      exact ⟨hrange,signedBytes_signedNumber signed edt⟩
  · simp only [encode_numeric hformat,exists_and_left]
    refine and_congr Iff.rfl ?_
    rw [← Option.isSome_iff_exists,← not_iff_not,← signedBytes_eq_none,Bool.not_eq_true,
      Option.isSome_eq_false_iff,Option.isNone_iff_eq_none]
  · obtain ⟨hrange,hbytes⟩ := (encode_numeric hformat).mp hencode
    obtain ⟨hlength,hraw⟩ := signedNumber_signedBytes hbytes
    refine ⟨hlength,roundHalfEven (value/scale)*scale,?_,?_⟩
    · rw [decode_numeric_exact hformat hlength,hraw,if_pos hrange]
    · have herror : |(roundHalfEven (value/scale) : ℚ)-value/scale| ≤ 1/2 := (halfEven_error _).1
      have hdistance : (roundHalfEven (value/scale) : ℚ)*scale-value =
          (roundHalfEven (value/scale)-value/scale)*scale := by
        rw [sub_mul,div_mul_cancel₀ _ hscale.ne']
      rw [hdistance,abs_mul,abs_of_pos hscale]
      linarith [mul_le_mul_of_nonneg_right herror hscale.le]

end Numeric

theorem numericCodec_roundTrip_tenths :
    ∃ edt, (PropertyCodec.numeric "int16" (1/10) (some (-2732)) (some 32766) 0 []).encode .exact (.number (253/10)) =
      .ok edt := by
  have hraw : roundHalfEven (253/10/(1/10)) = 253 := by
    rw [(by norm_num : (253/10/(1/10) : ℚ) = (253 : Int)),roundHalfEven_eq,halfEven_intCast]
  have h :=
    (@numericCodec_roundTrip true 2 "int16" (1/10) (some (-2732)) (some 32766) none rfl (by norm_num) _ rfl).2
  refine (h (253/10)).1.mpr ?_
  rw [hraw]
  exact ⟨by decide,by simp [InFormat]⟩

end Pyhems.Codec

import Pyhems.Codec.Codecs
import Pyhems.Library.Fallible
import Pyhems.Library.FirstMatch

/-! The codec of a temporal property writes exactly what it reads. -/
namespace Pyhems.Codec
open Protocol Library Fallible
open TemporalDefinition (dateBytes)

/-! ### Lengths of time -/

namespace Timedelta

/-- The length in microseconds. -/
def total (delta : Timedelta) : Int := (delta.days*86400+delta.seconds)*1000000+delta.microseconds

/-- `timedelta(microseconds=total)`. -/
def ofTotal (total : Int) : Timedelta where
  days := total/86400000000
  seconds := (total%86400000000/1000000).toNat
  microseconds := (total%1000000).toNat
  valid := by omega

instance : LE Timedelta := ⟨fun a b => a.total ≤ b.total⟩

instance : Sub Timedelta := ⟨fun a b => ofTotal (a.total-b.total)⟩

theorem le_def {a b : Timedelta} : a ≤ b ↔ a.total ≤ b.total := Iff.rfl

theorem total_ofTotal (total : Int) : (ofTotal total).total = total := by
  simp only [ofTotal,Timedelta.total]
  omega

theorem total_sub (a b : Timedelta) : (a-b).total = a.total-b.total := total_ofTotal _

/-- The whole seconds of a duration that is not negative. -/
def wholeSeconds (delta : Timedelta) : Nat := delta.days.toNat*86400+delta.seconds

theorem wholeSeconds_ofSeconds (seconds : Nat) : (ofSeconds seconds).wholeSeconds = seconds := by
  simp only [ofSeconds,wholeSeconds]
  omega

theorem ofSeconds_wholeSeconds {delta : Timedelta} (hdays : 0 ≤ delta.days) (hmicro : delta.microseconds = 0) :
    ofSeconds delta.wholeSeconds = delta := by
  obtain ⟨days,seconds,microseconds,hseconds,_⟩ := delta
  simp only [ofSeconds,wholeSeconds,mk.injEq]
  dsimp only at hdays hmicro
  omega

theorem total_ofSeconds (seconds : Nat) : (ofSeconds seconds).total = seconds*1000000 := by
  simp only [ofSeconds,total]
  omega

end Timedelta

structure TemporalCodec where
  temporal : TemporalDefinition
  enumValues : List EnumValue := []

namespace TemporalCodec
variable (codec : TemporalCodec)

def propertyCodec : PropertyCodec := .temporal codec.temporal codec.enumValues

def resolution : Timedelta :=
  if codec.temporal.kind = .date then .ofSeconds 86400
  else if codec.temporal.size ∈ [2,6] then .ofSeconds 60
  else .ofSeconds 1

def maximumDuration : Except Failure Timedelta :=
  if codec.temporal.kind ≠ .duration then .error (.typeError "Expected a duration codec")
  else .ok (.ofSeconds ((codec.temporal.maximumHour+1)*3600)-codec.resolution)

/-- The states have different keys and different EDTs, which the size has room for. -/
structure Distinct : Prop where
  keys : (codec.enumValues.map EnumValue.key).Nodup
  edts : (codec.enumValues.map EnumValue.edt).Nodup
  fits : ∀ state ∈ codec.enumValues, state.edt < 256^codec.temporal.size

end TemporalCodec

/-! ### Dates and times -/

theorem Date.make_eq_some {year month day : Nat} {date : Date} :
    Date.make year month day = some date ↔ date.year = year ∧ date.month = month ∧ date.day = day := by
  unfold Date.make
  constructor
  · intro h
    split at h
    · cases h
      exact ⟨rfl,rfl,rfl⟩
    · cases h
  · rintro ⟨rfl,rfl,rfl⟩
    rw [dif_pos date.valid]

theorem Time.make_eq_some {hour minute second : Nat} {time : Time} : Time.make hour minute second = some time ↔
    time.hour = hour ∧ time.minute = minute ∧ time.second = second ∧
      time.microsecond = 0 ∧ time.fold = false ∧ time.aware = false := by
  unfold Time.make
  constructor
  · intro h
    split at h
    · cases h
      exact ⟨rfl,rfl,rfl,rfl,rfl,rfl⟩
    · cases h
  · rintro ⟨rfl,rfl,rfl,hmicrosecond,hfold,haware⟩
    obtain ⟨hour,minute,second,microsecond,fold,aware,valid⟩ := time
    dsimp only at hmicrosecond hfold haware
    subst hmicrosecond hfold haware
    rw [dif_pos ⟨valid.1,valid.2.1,valid.2.2.1⟩]

theorem map_dateBytes (date : Date) :
    (dateBytes date).map UInt8.toNat = [date.year/256,date.year%256,date.month,date.day] := by
  obtain ⟨year,month,day,⟨_,hyear⟩,⟨_,hmonth⟩,_,hday⟩ := date
  have hdays : daysInMonth year month ≤ 31 := by
    unfold daysInMonth
    split
    · split <;> decide
    · split <;> decide
  have hhigh : year/256 < 256 := by omega
  simp only [dateBytes,List.map_cons,List.map_nil,UInt8.toNat_ofNat']
  rw [Nat.mod_eq_of_lt hhigh,Nat.mod_eq_of_lt (by omega : month < 256),Nat.mod_eq_of_lt (by omega : day < 256)]

theorem dateBytes_of_make {high low month day : UInt8} {date : Date}
    (h : Date.make (high.toNat*256+low.toNat) month.toNat day.toNat = some date) :
    dateBytes date = [high,low,month,day] := by
  have hlow := low.toNat_lt
  obtain ⟨hyear,hmonth,hday⟩ := Date.make_eq_some.mp h
  apply List.map_injective_iff.mpr (fun _ _ => UInt8.toNat_inj.mp)
  rw [map_dateBytes,hyear,hmonth,hday,List.map_cons,List.map_cons,List.map_cons,List.map_cons,List.map_nil]
  congr 1
  · omega
  · congr 1
    omega

namespace TemporalDefinition
variable (definition : TemporalDefinition)

/-- The bytes of a clock time or a duration. -/
def timeBytes (hour minute second : Nat) : Bytes :=
  [UInt8.ofNat hour,UInt8.ofNat minute,UInt8.ofNat second].take definition.size

/-- What those bytes can hold. -/
structure Holds (hour minute second : Nat) : Prop where
  hours : hour ≤ definition.maximumHour
  minutes : minute < 60
  seconds : second < 60
  precise : definition.size = 2 → second = 0

variable {definition} {hour minute second : Nat} {edt : Bytes}

theorem size_of_kind (h : definition.kind = .clock ∨ definition.kind = .duration) :
    definition.size = 2 ∨ definition.size = 3 := by
  have hsize := definition.supported
  rcases h with h | h <;> rw [h] at hsize <;> simpa [TemporalKind.sizes] using hsize

theorem writeTime_eq_ok (hminute : minute < 60) (hsecond : second < 60) :
    definition.writeTime hour minute second = .ok edt ↔
      definition.Holds hour minute second ∧ edt = definition.timeBytes hour minute second := by
  unfold writeTime
  rw [ite_error_eq_ok,ite_error_eq_ok,Except.ok.injEq]
  constructor
  · rintro ⟨hhour,hprecise,rfl⟩
    refine ⟨⟨Nat.not_lt.mp hhour,hminute,hsecond,fun hsize => ?_⟩,rfl⟩
    by_contra hne
    exact hprecise ⟨hsize,hne⟩
  · rintro ⟨h,rfl⟩
    exact ⟨Nat.not_lt.mpr h.hours,fun hfault => hfault.2 (h.precise hfault.1),rfl⟩

/-- The bytes of a clock time or a duration are read back as its hour, minute and second. -/
theorem decode_timeBytes (hkind : definition.kind = .clock ∨ definition.kind = .duration)
    (h : definition.Holds hour minute second) :
    definition.decode (definition.timeBytes hour minute second) = definition.readTime hour minute second := by
  have hbyte := definition.byte
  obtain ⟨hhours,hminutes,hseconds,hprecise⟩ := h
  have hhour : hour % 256 = hour := Nat.mod_eq_of_lt (by omega)
  have hminute : minute % 256 = minute := Nat.mod_eq_of_lt (by omega)
  have hsecond : second % 256 = second := Nat.mod_eq_of_lt (by omega)
  rcases size_of_kind hkind with hsize | hsize
  · have hzero := hprecise hsize
    subst hzero
    rcases hkind with hkind | hkind <;>
      simp [decode,timeBytes,hkind,hsize,hhour,hminute]
  · rcases hkind with hkind | hkind <;>
      simp [decode,timeBytes,hkind,hsize,hhour,hminute,hsecond]

/-- What is read as a clock time or a duration is the bytes of its hour, minute and second. -/
theorem exists_timeBytes (hkind : definition.kind = .clock ∨ definition.kind = .duration) {value : Temporal}
    (h : definition.decode edt = some value) : ∃ hour minute second, definition.Holds hour minute second ∧
      edt = definition.timeBytes hour minute second ∧ definition.readTime hour minute second = some value := by
  have hread : ∀ hour minute second : UInt8, (definition.size = 2 → second = 0) →
      definition.readTime hour.toNat minute.toNat second.toNat = some value →
      definition.Holds hour.toNat minute.toNat second.toNat := by
    intro hour minute second hprecise hread
    unfold readTime at hread
    split at hread
    · cases hread
    · next hrange =>
      simp only [not_or,Nat.not_lt] at hrange
      exact ⟨hrange.1,Nat.lt_succ_of_le hrange.2.1,Nat.lt_succ_of_le hrange.2.2,
        fun hsize => by rw [hprecise hsize]; rfl⟩
  unfold decode at h
  split at h
  · cases h
  · next hlength =>
    rw [not_not] at hlength
    rcases size_of_kind hkind with hsize | hsize
    · rw [hsize] at hlength
      obtain ⟨a,b,rfl⟩ := List.length_eq_two.mp hlength
      have hvalue : definition.readTime a.toNat b.toNat (0 : UInt8).toNat = some value := by
        rcases hkind with hkind | hkind <;> simpa [hkind] using h
      exact ⟨_,_,_,hread a b 0 (fun _ => rfl) hvalue,by simp [timeBytes,hsize],hvalue⟩
    · rw [hsize] at hlength
      obtain ⟨a,b,c,rfl⟩ := List.length_eq_three.mp hlength
      have hvalue : definition.readTime a.toNat b.toNat c.toNat = some value := by
        rcases hkind with hkind | hkind <;> simpa [hkind] using h
      exact ⟨_,_,_,hread a b c (by omega) hvalue,by simp [timeBytes,hsize],hvalue⟩

variable {value : Temporal}

theorem decode_date (hkind : definition.kind = .date) :
    definition.decode edt = some value ↔ ∃ date, value = .date date ∧ edt = dateBytes date := by
  have hsize : definition.size = 4 := by simpa [hkind,TemporalKind.sizes] using definition.supported
  constructor
  · intro h
    unfold decode at h
    split at h
    · cases h
    · next hlength =>
      rw [not_not,hsize] at hlength
      obtain ⟨a,b,c,d,rfl⟩ : ∃ a b c d, edt = [a,b,c,d] := by
        obtain ⟨a,edt,rfl⟩ := List.exists_cons_of_length_eq_add_one hlength
        obtain ⟨b,c,d,rfl⟩ := List.length_eq_three.mp (Nat.succ.inj hlength)
        exact ⟨a,b,c,d,rfl⟩
      simp only [hkind,List.map_cons,List.map_nil] at h
      obtain ⟨date,hdate,he⟩ := Option.map_eq_some_iff.mp h
      exact ⟨date,he.symm,(dateBytes_of_make hdate).symm⟩
  · rintro ⟨date,rfl,rfl⟩
    have hdate : Date.make (date.year/256*256+date.year%256) date.month date.day = some date :=
      Date.make_eq_some.mpr ⟨(Nat.div_add_mod' _ _).symm,rfl,rfl⟩
    simp [decode,hkind,hsize,map_dateBytes,hdate]
    rfl

theorem exact_date (hkind : definition.kind = .date) :
    definition.decode edt = some value ↔ definition.encode value = .ok edt := by
  rw [decode_date hkind]
  unfold encode
  cases value with
  | date date =>
    simp only [hkind,Except.ok.injEq]
    exact ⟨fun ⟨_,he,hedt⟩ => by cases he; exact hedt.symm,fun h => ⟨date,rfl,h.symm⟩⟩
  | datetime _ _ | time _ | timedelta _ =>
    simp only [hkind]
    exact ⟨nofun,nofun⟩

/-- A time that is written without loss: no time zone, fold or microseconds. -/
def Plain (time : Time) : Prop := ¬ (time.aware ∨ time.fold ∨ time.microsecond ≠ 0)

theorem plain_iff {time : Time} : Plain time ↔ Time.make time.hour time.minute time.second = some time := by
  rw [Plain,Time.make_eq_some]
  cases time.aware <;> cases time.fold <;> simp

theorem exact_clock (hkind : definition.kind = .clock) :
    definition.decode edt = some value ↔ definition.encode value = .ok edt := by
  constructor
  · intro h
    obtain ⟨hour,minute,second,hholds,rfl,hread⟩ := exists_timeBytes (Or.inl hkind) h
    unfold readTime at hread
    obtain ⟨_,hread⟩ := Option.ite_none_left_eq_some.mp hread
    rw [if_pos hkind] at hread
    obtain ⟨time,htime,rfl⟩ := Option.map_eq_some_iff.mp hread
    obtain ⟨rfl,rfl,rfl,_⟩ := Time.make_eq_some.mp htime
    unfold encode
    simp only [hkind]
    rw [if_neg (plain_iff.mpr htime)]
    exact (writeTime_eq_ok hholds.minutes hholds.seconds).mpr ⟨hholds,rfl⟩
  · intro h
    unfold encode at h
    cases value with
    | time time =>
      simp only [hkind] at h
      obtain ⟨hplain,h⟩ := ite_error_eq_ok.mp h
      obtain ⟨hholds,rfl⟩ := (writeTime_eq_ok time.valid.2.1 time.valid.2.2.1).mp h
      rw [decode_timeBytes (Or.inl hkind) hholds,readTime,if_neg,if_pos hkind,plain_iff.mp hplain]
      · rfl
      · have := hholds.hours
        have := hholds.minutes
        have := hholds.seconds
        omega
    | date _ | datetime _ _ | timedelta _ =>
      simp only [hkind] at h
      cases h

theorem exact_duration (hkind : definition.kind = .duration) :
    definition.decode edt = some value ↔ definition.encode value = .ok edt := by
  constructor
  · intro h
    obtain ⟨hour,minute,second,hholds,rfl,hread⟩ := exists_timeBytes (Or.inr hkind) h
    have hminute := hholds.minutes
    have hsecond := hholds.seconds
    unfold readTime at hread
    obtain ⟨_,hread⟩ := Option.ite_none_left_eq_some.mp hread
    rw [if_neg (by rw [hkind]; decide)] at hread
    cases hread
    have hseconds := Timedelta.wholeSeconds_ofSeconds (hour*3600+minute*60+second)
    have hhour : (hour*3600+minute*60+second)/3600 = hour := by omega
    have hrest : (hour*3600+minute*60+second)%3600 = minute*60+second := by omega
    unfold encode
    simp only [hkind]
    rw [if_neg (by simp [Timedelta.ofSeconds]; omega)]
    unfold Timedelta.wholeSeconds at hseconds
    rw [hseconds,hhour,hrest,(by omega : (minute*60+second)/60 = minute),
      (by omega : (minute*60+second)%60 = second)]
    exact (writeTime_eq_ok hminute hsecond).mpr ⟨hholds,rfl⟩
  · intro h
    unfold encode at h
    cases value with
    | timedelta delta =>
      simp only [hkind] at h
      obtain ⟨hplain,h⟩ := ite_error_eq_ok.mp h
      rw [not_or,not_not] at hplain
      obtain ⟨hholds,rfl⟩ := (writeTime_eq_ok (by omega) (by omega)).mp h
      have hdelta := Timedelta.ofSeconds_wholeSeconds (Int.not_lt.mp hplain.1) hplain.2
      rw [decode_timeBytes (Or.inr hkind) hholds,readTime,if_neg,if_neg (by rw [hkind]; decide)]
      · have hsum : ∀ n : Nat, n/3600*3600+n%3600/60*60+n%3600%60 = n := by omega
        rw [hsum]
        exact congrArg (some ∘ Temporal.timedelta) hdelta
      · have := hholds.hours
        omega
    | date _ | datetime _ _ | time _ =>
      simp only [hkind] at h
      cases h

theorem timeBytes_of_make {a b c : UInt8} {time : Time} (h : Time.make a.toNat b.toNat c.toNat = some time) :
    [UInt8.ofNat time.hour,UInt8.ofNat time.minute,UInt8.ofNat time.second] = [a,b,c] := by
  obtain ⟨hhour,hminute,hsecond,_⟩ := Time.make_eq_some.mp h
  rw [hhour,hminute,hsecond,UInt8.ofNat_toNat,UInt8.ofNat_toNat,UInt8.ofNat_toNat]

theorem map_timeBytes (time : Time) :
    [UInt8.ofNat time.hour,UInt8.ofNat time.minute,UInt8.ofNat time.second].map UInt8.toNat =
      [time.hour,time.minute,time.second] := by
  obtain ⟨hour,minute,second,_,_,_,hhour,hminute,hsecond,_⟩ := time
  simp only [List.map_cons,List.map_nil,UInt8.toNat_ofNat']
  rw [Nat.mod_eq_of_lt (by omega : hour < 2^8),Nat.mod_eq_of_lt (by omega : minute < 2^8),
    Nat.mod_eq_of_lt (by omega : second < 2^8)]

def timestampBytes (definition : TemporalDefinition) (date : Date) (time : Time) : Bytes :=
  (dateBytes date ++ [UInt8.ofNat time.hour,UInt8.ofNat time.minute,UInt8.ofNat time.second]).take
    definition.size

theorem size_of_datetime (hkind : definition.kind = .datetime) : definition.size = 6 ∨ definition.size = 7 := by
  simpa [hkind,TemporalKind.sizes] using definition.supported

theorem encode_datetime (hkind : definition.kind = .datetime) {date : Date} {time : Time} :
    definition.encode (.datetime date time) = .ok edt ↔
      Plain time ∧ (definition.size = 6 → time.second = 0) ∧ edt = definition.timestampBytes date time := by
  unfold encode
  simp only [hkind]
  rw [ite_error_eq_ok,ite_error_eq_ok,Except.ok.injEq,not_and,not_not]
  exact and_congr Iff.rfl (and_congr Iff.rfl eq_comm)

theorem decode_timestampBytes (hkind : definition.kind = .datetime) {date : Date} {time : Time}
    (hplain : Plain time) (hprecise : definition.size = 6 → time.second = 0) :
    definition.decode (definition.timestampBytes date time) = some (.datetime date time) := by
  have hdate : Date.make (date.year/256*256+date.year%256) date.month date.day = some date :=
    Date.make_eq_some.mpr ⟨(Nat.div_add_mod' _ _).symm,rfl,rfl⟩
  have hbytes : (definition.timestampBytes date time).map UInt8.toNat =
      ([date.year/256,date.year%256,date.month,date.day] ++ [time.hour,time.minute,time.second]).take
        definition.size := by
    rw [timestampBytes,List.map_take,List.map_append,map_dateBytes,map_timeBytes]
  have htime := plain_iff.mp hplain
  have hlength : (definition.timestampBytes date time).length = definition.size := by
    rcases size_of_datetime hkind with hsize | hsize <;> simp [timestampBytes,dateBytes,hsize]
  unfold decode
  rw [if_neg (not_not.mpr hlength),hbytes]
  rcases size_of_datetime hkind with hsize | hsize
  · rw [hprecise hsize] at htime
    simp [hkind,hsize,hdate,htime]
  · simp [hkind,hsize,hdate,htime]

theorem exists_timestampBytes (hkind : definition.kind = .datetime) (h : definition.decode edt = some value) :
    ∃ date time, Plain time ∧ (definition.size = 6 → time.second = 0) ∧
      edt = definition.timestampBytes date time ∧ value = .datetime date time := by
  unfold decode at h
  obtain ⟨hlength,h⟩ := Option.ite_none_left_eq_some.mp h
  rw [not_not] at hlength
  have hread : ∃ a b c d e f g date time, (definition.size = 6 → g = 0) ∧
      edt = [a,b,c,d,e,f,g].take definition.size ∧
      Date.make (UInt8.toNat a*256+b.toNat) c.toNat d.toNat = some date ∧
      Time.make e.toNat f.toNat g.toNat = some time ∧ value = .datetime date time := by
    rcases size_of_datetime hkind with hsize | hsize <;> rw [hsize] at hlength
    · rcases edt with _ | ⟨a,_ | ⟨b,_ | ⟨c,_ | ⟨d,_ | ⟨e,_ | ⟨f,_ | ⟨g,edt⟩⟩⟩⟩⟩⟩⟩ <;> simp at hlength
      simp only [hkind,List.map_cons,List.map_nil] at h
      obtain ⟨date,hdate,h⟩ := Option.bind_eq_some_iff.mp h
      obtain ⟨time,htime,he⟩ := Option.bind_eq_some_iff.mp h
      cases he
      exact ⟨a,b,c,d,e,f,0,date,time,fun _ => rfl,by rw [hsize]; rfl,hdate,htime,rfl⟩
    · rcases edt with _ | ⟨a,_ | ⟨b,_ | ⟨c,_ | ⟨d,_ | ⟨e,_ | ⟨f,_ | ⟨g,_ | ⟨_,edt⟩⟩⟩⟩⟩⟩⟩⟩ <;> simp at hlength
      simp only [hkind,List.map_cons,List.map_nil] at h
      obtain ⟨date,hdate,h⟩ := Option.bind_eq_some_iff.mp h
      obtain ⟨time,htime,he⟩ := Option.bind_eq_some_iff.mp h
      cases he
      exact ⟨a,b,c,d,e,f,g,date,time,by omega,by rw [hsize]; rfl,hdate,htime,rfl⟩
  obtain ⟨a,b,c,d,e,f,g,date,time,hzero,rfl,hdate,htime,rfl⟩ := hread
  obtain ⟨hhour,hminute,hsecond,hrest⟩ := Time.make_eq_some.mp htime
  refine ⟨date,time,?_,fun hsize => ?_,?_,rfl⟩
  · rw [plain_iff,hhour,hminute,hsecond,htime]
  · rw [hsecond,hzero hsize]
    rfl
  · rw [timestampBytes,dateBytes_of_make hdate,timeBytes_of_make htime]
    rfl

theorem exact_datetime (hkind : definition.kind = .datetime) :
    definition.decode edt = some value ↔ definition.encode value = .ok edt := by
  constructor
  · intro h
    obtain ⟨date,time,hplain,hprecise,hedt,rfl⟩ := exists_timestampBytes hkind h
    exact (encode_datetime hkind).mpr ⟨hplain,hprecise,hedt⟩
  · intro h
    cases value with
    | datetime date time =>
      obtain ⟨hplain,hprecise,rfl⟩ := (encode_datetime hkind).mp h
      exact decode_timestampBytes hkind hplain hprecise
    | date _ | timedelta _ | time _ =>
      unfold encode at h
      simp only [hkind] at h
      cases h

/-- A temporal value is read from exactly the bytes that it is written as. -/
theorem decode_eq_some_iff : definition.decode edt = some value ↔ definition.encode value = .ok edt := by
  cases hkind : definition.kind with
  | date => exact exact_date hkind
  | clock => exact exact_clock hkind
  | duration => exact exact_duration hkind
  | datetime => exact exact_datetime hkind

end TemporalDefinition

/-! ### Rejected values -/

/-- `ValueError` is the only exception. -/
def OnlyValueError {α : Type} (result : Except Failure α) : Prop :=
  FailsOnly (fun failure => ∃ text, failure = .valueError text) result

theorem onlyValueError_valueError {α : Type} (text : String) :
    OnlyValueError (.error (.valueError text) : Except Failure α) :=
  failsOnly_error.mpr ⟨text,rfl⟩

theorem TemporalDefinition.onlyValueError_writeTime (definition : TemporalDefinition) {hour minute second : Nat} :
    OnlyValueError (definition.writeTime hour minute second) := by
  unfold writeTime
  split
  · exact onlyValueError_valueError _
  · split
    · exact onlyValueError_valueError _
    · exact failsOnly_ok _

theorem TemporalDefinition.onlyValueError_encode (definition : TemporalDefinition) {value : Temporal} :
    OnlyValueError (definition.encode value) := by
  unfold encode
  split
  · exact failsOnly_ok _
  · split
    · exact onlyValueError_valueError _
    · split
      · exact onlyValueError_valueError _
      · exact failsOnly_ok _
  · split
    · exact onlyValueError_valueError _
    · exact definition.onlyValueError_writeTime
  · split
    · exact onlyValueError_valueError _
    · exact definition.onlyValueError_writeTime
  · exact onlyValueError_valueError _

/-! ### Durations -/

variable {codec : TemporalCodec}

theorem TemporalCodec.resolution_duration (hkind : codec.temporal.kind = .duration) :
    codec.resolution.total = if codec.temporal.size = 2 then 60000000 else 1000000 := by
  unfold resolution
  rw [if_neg (by rw [hkind]; decide)]
  rcases TemporalDefinition.size_of_kind (Or.inr hkind) with hsize | hsize <;>
    simp [hsize,Timedelta.total_ofSeconds]

theorem TemporalDefinition.encode_duration {definition : TemporalDefinition} (hkind : definition.kind = .duration)
    {delta : Timedelta} : (∃ edt, definition.encode (.timedelta delta) = .ok edt) ↔
      0 ≤ delta.days ∧ delta.microseconds = 0 ∧ delta.wholeSeconds/3600 ≤ definition.maximumHour ∧
        (definition.size = 2 → delta.wholeSeconds%3600%60 = 0) := by
  unfold encode
  simp only [hkind]
  constructor
  · rintro ⟨edt,h⟩
    obtain ⟨hplain,h⟩ := ite_error_eq_ok.mp h
    obtain ⟨hholds,_⟩ := (writeTime_eq_ok (by omega) (by omega)).mp h
    exact ⟨by omega,by omega,hholds.hours,hholds.precise⟩
  · rintro ⟨hdays,hmicro,hhours,hprecise⟩
    refine ⟨_,ite_error_eq_ok.mpr ⟨by omega,(writeTime_eq_ok (by omega) (by omega)).mpr ⟨?_,rfl⟩⟩⟩
    exact ⟨hhours,by omega,by omega,hprecise⟩

/-- Whole minutes below an hour limit. -/
theorem minute_limit (n hours : Nat) :
    n/3600 ≤ hours ∧ n%3600%60 = 0 ↔ ∃ minutes, n = minutes*60 ∧ minutes+1 ≤ (hours+1)*60 := by
  constructor
  · rintro ⟨hhours,hminutes⟩
    exact ⟨n/60,by omega,by omega⟩
  · rintro ⟨minutes,rfl,hlimit⟩
    exact ⟨by omega,by omega⟩

/-- A duration can be written exactly if it is a multiple of the resolution up to the maximum. -/
theorem TemporalCodec.encode_duration (hkind : codec.temporal.kind = .duration) :
    ∃ greatest, codec.maximumDuration = .ok greatest ∧ ∀ delta : Timedelta,
      (∃ edt, codec.temporal.encode (.timedelta delta) = .ok edt) ↔
        0 ≤ delta.total ∧ delta ≤ greatest ∧ codec.resolution.total ∣ delta.total := by
  refine ⟨_,if_neg (not_not.mpr hkind),fun delta => ?_⟩
  rw [TemporalDefinition.encode_duration hkind,Timedelta.le_def,Timedelta.total_sub,Timedelta.total_ofSeconds,
    TemporalCodec.resolution_duration hkind]
  obtain ⟨days,seconds,microseconds,hseconds,hmicro⟩ := delta
  simp only [Timedelta.total,Timedelta.wholeSeconds]
  rcases TemporalDefinition.size_of_kind (Or.inr hkind) with hsize | hsize
  · have hprecise : ∀ p : Prop, (codec.temporal.size = 2 → p) ↔ p := fun p => by simp [hsize]
    rw [if_pos hsize,hprecise,minute_limit]
    constructor
    · rintro ⟨hdays,hmicro,minutes,hminutes,hlimit⟩
      exact ⟨by omega,by omega,by omega⟩
    · rintro ⟨hnonneg,hlimit,minutes,hminutes⟩
      exact ⟨by omega,by omega,minutes.toNat,by omega,by omega⟩
  · rw [hsize,if_neg (by decide)]
    constructor
    · rintro ⟨hdays,hmicro,hhours,_⟩
      exact ⟨by omega,by omega,by omega⟩
    · rintro ⟨hnonneg,hlimit,seconds,hseconds⟩
      exact ⟨by omega,by omega,by omega,by omega⟩

/-! ### The codec -/

section Codec
variable {arithmetic : Arithmetic} {context : Option Context} {edt : Bytes} {value : Value}

theorem PropertyCodec.stateBytes_of_lt {state : EnumValue} {size : Nat} (h : state.edt < 256^size) :
    PropertyCodec.stateBytes state size = .ok (BigEndian.digits size state.edt) := if_pos h

/-- States with room for their EDTs are looked up without failing. -/
theorem PropertyCodec.findState_eq {size : Nat} {states : List EnumValue}
    (h : ∀ state ∈ states, state.edt < 256^size) :
    PropertyCodec.findState size edt states =
      .ok (states.find? fun state => decide (edt = BigEndian.digits size state.edt)) := by
  induction states with
  | nil => rfl
  | cons state states ih =>
    obtain ⟨hstate,hstates⟩ := List.forall_mem_cons.mp h
    rw [findState,stateBytes_of_lt hstate,ih hstates,List.find?_cons]
    by_cases he : edt = BigEndian.digits size state.edt
    · simp [he,bind,Except.bind,pure,Except.pure]
    · simp [he,bind,Except.bind]

namespace TemporalCodec

/-- The state with an EDT, of the states that fit. -/
def findState (codec : TemporalCodec) (edt : Bytes) : Option EnumValue :=
  codec.enumValues.find? fun state => decide (edt = BigEndian.digits codec.temporal.size state.edt)

theorem findState_of_length (h : edt.length ≠ codec.temporal.size) : codec.findState edt = none := by
  rw [findState,List.find?_eq_none]
  intro state _ he
  rw [of_decide_eq_true he,BigEndian.length_digits] at h
  exact h rfl

theorem decode_eq (h : codec.Distinct) :
    codec.propertyCodec.decode arithmetic context edt =
      .ok (((codec.findState edt).map fun state => Value.text state.key).getD
        ((codec.temporal.decode edt).elim .none .temporal)) := by
  rw [propertyCodec,PropertyCodec.decode,PropertyCodec.findState_eq h.fits,← findState]
  by_cases hlength : edt.length = codec.temporal.size
  · rw [if_pos hlength]
    cases codec.findState edt <;> rfl
  · rw [if_neg hlength,findState_of_length hlength]
    rfl

theorem findState_eq_some (h : codec.Distinct) {state : EnumValue} (hmem : state ∈ codec.enumValues) :
    codec.findState (BigEndian.digits codec.temporal.size state.edt) = some state := by
  apply FirstMatch.find?_unique hmem (decide_eq_true rfl)
  intro other hother he
  have hvalue := congrArg BigEndian.value (of_decide_eq_true he)
  rw [BigEndian.value_digits_of_lt (h.fits state hmem),BigEndian.value_digits_of_lt (h.fits other hother)] at hvalue
  exact List.inj_on_of_nodup_map h.edts hother hmem hvalue.symm

theorem encode_text (h : codec.Distinct) {key : String} :
    codec.propertyCodec.encode arithmetic (.text key) = .ok edt ↔
      ∃ state ∈ codec.enumValues, state.key = key ∧ edt = BigEndian.digits codec.temporal.size state.edt := by
  rw [propertyCodec,PropertyCodec.encode]
  constructor
  · intro he
    split at he
    · next state hfound =>
      have hmem := List.mem_of_find?_eq_some hfound
      rw [PropertyCodec.stateBytes_of_lt (h.fits state hmem)] at he
      have hkey : state.key = key := by simpa using List.find?_some hfound
      exact ⟨state,hmem,hkey,(Except.ok.inj he).symm⟩
    · cases he
  · rintro ⟨state,hmem,rfl,rfl⟩
    have hfound : codec.enumValues.find? (fun other => decide (other.key = state.key)) = some state :=
      FirstMatch.find?_unique hmem (decide_eq_true rfl) fun other hother he =>
        List.inj_on_of_nodup_map h.keys hother hmem (of_decide_eq_true he)
    rw [hfound]
    exact PropertyCodec.stateBytes_of_lt (h.fits state hmem)

/-- The EDT of a state is read as its key. -/
theorem decode_state (h : codec.Distinct) {state : EnumValue} (hmem : state ∈ codec.enumValues) :
    codec.propertyCodec.decode arithmetic context (BigEndian.digits codec.temporal.size state.edt) =
      .ok (.text state.key) := by
  rw [decode_eq h,findState_eq_some h hmem]
  rfl

theorem decode_encode_text (h : codec.Distinct) {key : String}
    (he : codec.propertyCodec.encode arithmetic (.text key) = .ok edt) :
    codec.propertyCodec.decode arithmetic context edt = .ok (.text key) := by
  obtain ⟨state,hmem,rfl,rfl⟩ := (encode_text h).mp he
  exact decode_state h hmem

theorem encode_temporal {value : Temporal} :
    codec.propertyCodec.encode arithmetic (.temporal value) = codec.temporal.encode value := by
  rw [propertyCodec,PropertyCodec.encode]

theorem onlyValueError_encode (h : codec.Distinct) :
    OnlyValueError (codec.propertyCodec.encode arithmetic value) := by
  cases value with
  | text key =>
    rw [propertyCodec,PropertyCodec.encode]
    split
    · next state hfound =>
      rw [PropertyCodec.stateBytes_of_lt (h.fits state (List.mem_of_find?_eq_some hfound))]
      exact failsOnly_ok _
    · exact onlyValueError_valueError _
  | temporal value =>
    rw [encode_temporal]
    exact codec.temporal.onlyValueError_encode
  | none | bool _ | number _ | bytes _ => exact onlyValueError_valueError _

theorem decode_encode (h : codec.Distinct) (he : codec.propertyCodec.encode arithmetic value = .ok edt) :
    codec.propertyCodec.decode arithmetic context edt = .ok value ∨
      ∃ state ∈ codec.enumValues, edt = BigEndian.digits codec.temporal.size state.edt := by
  cases value with
  | text key =>
    obtain ⟨state,hmem,_,hedt⟩ := (encode_text h).mp he
    exact Or.inr ⟨state,hmem,hedt⟩
  | temporal value =>
    rw [encode_temporal] at he
    cases hstate : codec.findState edt with
    | none =>
      rw [decode_eq h,hstate,TemporalDefinition.decode_eq_some_iff.mpr he]
      exact Or.inl rfl
    | some state =>
      exact Or.inr ⟨state,List.mem_of_find?_eq_some hstate,of_decide_eq_true (List.find?_some hstate :)⟩
  | none | bool _ | number _ | bytes _ => cases he

/-- A temporal codec writes what it reads, and reads what it writes unless that is the EDT of a state. -/
theorem lossless (h : codec.Distinct) :
    (∀ edt, codec.propertyCodec.decode arithmetic context edt = .ok .none ∨
      ∃ value, codec.propertyCodec.decode arithmetic context edt = .ok value ∧
        codec.propertyCodec.encode arithmetic value = .ok edt) ∧
    (∀ edt : Bytes, edt.length ≠ codec.temporal.size →
      codec.propertyCodec.decode arithmetic context edt = .ok .none) ∧
    (∀ value edt, codec.propertyCodec.encode arithmetic value = .ok edt →
      codec.propertyCodec.decode arithmetic context edt = .ok value ∨
        ∃ state ∈ codec.enumValues, edt = BigEndian.digits codec.temporal.size state.edt) ∧
    (codec.temporal.kind = .duration → ∃ greatest, codec.maximumDuration = .ok greatest ∧
      ∀ delta : Timedelta,
        (∃ edt, codec.propertyCodec.encode arithmetic (.temporal (.timedelta delta)) = .ok edt) ↔
          0 ≤ delta.total ∧ delta ≤ greatest ∧ codec.resolution.total ∣ delta.total) ∧
    ∀ value failure, codec.propertyCodec.encode arithmetic value = .error failure →
      ∃ text, failure = .valueError text := by
  refine ⟨fun edt => ?_,fun edt hlength => ?_,fun value edt => decode_encode h,fun hkind => ?_,
    fun _ => onlyValueError_encode h⟩
  · rw [decode_eq h]
    cases hstate : codec.findState edt with
    | some state =>
      have hedt : edt = BigEndian.digits codec.temporal.size state.edt :=
        of_decide_eq_true (List.find?_some hstate :)
      exact Or.inr ⟨_,rfl,(encode_text h).mpr ⟨state,List.mem_of_find?_eq_some hstate,rfl,hedt⟩⟩
    | none =>
      cases hdecode : codec.temporal.decode edt with
      | none => exact Or.inl rfl
      | some value =>
        exact Or.inr ⟨_,rfl,encode_temporal.trans (TemporalDefinition.decode_eq_some_iff.mp hdecode)⟩
  · have hdecode : codec.temporal.decode edt = none := if_pos hlength
    rw [decode_eq h,findState_of_length hlength,hdecode]
    rfl
  · simp only [encode_temporal]
    exact encode_duration hkind

/-- A timer of hours and minutes that may be unset. -/
def offTimer : TemporalCodec where
  temporal := ⟨.duration,2,255,by decide,by decide,nofun⟩
  enumValues := [⟨0xFFFF,"unset","Unset","未設定"⟩]

theorem lossless_offTimer : offTimer.propertyCodec.decode .exact none [1,30] = .ok .none ∨
    ∃ value, offTimer.propertyCodec.decode .exact none [1,30] = .ok value ∧
      offTimer.propertyCodec.encode .exact value = .ok [1,30] :=
  (lossless ⟨by decide,by decide,by decide⟩).1 [1,30]

end TemporalCodec

end Codec

end Pyhems.Codec

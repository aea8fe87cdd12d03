import Pyhems.Codec.TemporalCodec
import Pyhems.Generator.Entities

/-! Entities of dates and times. A time means a time of day or a duration, which a curated table tells; other
alternatives of the same width are states, each of an EDT of its own. -/
namespace Pyhems.Generator
open Library Codec Fallible
open Get (Epc)

/-! ### Classification -/

/-- `TemporalKind(text)`. -/
def temporalKindOf : String → Except Failure TemporalKind
  | "date" => .ok .date
  | "clock" => .ok .clock
  | "duration" => .ok .duration
  | "datetime" => .ok .datetime
  | text => .error (.valueError (quoted text ++ " is not a valid TemporalKind"))

structure TemporalEntry where
  classCode : Nat
  epc : Epc
  kind : String

/-- The kinds of times, by class and EPC. -/
abbrev TemporalKinds := List ((Nat × Epc) × TemporalKind)

def TemporalEntry.key (entry : TemporalEntry) : Nat × Epc := (entry.classCode,entry.epc)

/-- The body of the loop of `_load_temporal_kinds`. -/
def loadTemporalKind (result : TemporalKinds) (entry : TemporalEntry) : Except Failure TemporalKinds := do
  let kind ← temporalKindOf entry.kind
  if (Dict.get entry.key result).isSome ∨ kind ∉ [.clock,.duration] then
    throw (.valueError ("Invalid or duplicate temporal classification: " ++
      s!"\x7b'class_code': {entry.classCode}, 'epc': {entry.epc}, 'kind': {quoted entry.kind}\x7d"))
  else pure (Dict.insert entry.key kind result)

def loadTemporalKinds (entries : List TemporalEntry) : Except Failure TemporalKinds :=
  entries.foldlM loadTemporalKind []

/-- `TemporalDefinition(kind, size, maximum_hour)` with its validation. -/
def temporalDefinition (kind : TemporalKind) (size maximumHour : Nat) : Except Failure TemporalDefinition :=
  if hsize : size ∈ kind.sizes then
    if hbyte : maximumHour ≤ 255 then
      if hclock : kind = .clock → maximumHour ≤ 23 then .ok ⟨kind,size,maximumHour,hsize,hbyte,hclock⟩
      else .error (.valueError "Clock maximum_hour cannot exceed 23")
    else .error (.valueError "maximum_hour must be in 0..255")
  else .error (.valueError s!"Unsupported {kind.text} size: {size}")

/-! ### Entities -/

/-- The option is a date or a time. -/
def isTemporal (option : Spec) : Bool := (option.type.bind rawTimeTypeSize).isSome

def hasTemporalAlternative (spec : Spec) (definitions : Definitions) : Except Failure Bool := do
  let spec ← resolveRef spec definitions
  let options ← (spec.oneOf.getD [spec]).mapM fun option => resolveRef option definitions
  pure (options.any isTemporal)

/-- The states of the options other than the one that is temporal; none if one of them is no state of its size. -/
def temporalStates (size : Nat) : List Spec → Except Failure (Option (List EnumValue))
  | [] => .ok (some [])
  | option :: options =>
    if isTemporal option then temporalStates size options
    else if option.type ≠ some .state then .ok none
    else do
      let optionSize ← required "size" option.size
      if optionSize ≠ size then pure none
      else
        let parsed ← parseStateEnumValues option
        if parsed.length ≠ (option.enum.getD []).length then
          throw (.valueError "Temporal special states must be exact EDT values")
        else if ¬ ∀ state ∈ parsed, state.edt < 2^(size*8) then
          throw (.valueError "Temporal special state does not fit its size")
        else
          let states ← temporalStates size options
          pure (states.map (parsed ++ ·))

def temporalEntityOf (classCode : Nat) (prop : MraProperty) (temporal : TemporalDefinition)
    (states : List EnumValue) : EntityDefinition where
  id := s!"class_{hexLower 4 classCode}_epc_{hexLower 2 prop.epc}"
  epc := prop.epc
  nameEn := prop.nameEn
  nameJa := prop.nameJa
  readable := isAccessible prop.get
  writable := isAccessible prop.set
  descriptionEn := prop.descriptionEn
  descriptionJa := prop.descriptionJa
  temporal := temporal
  enumValues := states

/-- The meaning of a date or a time, and the entry of the table that it takes. -/
def temporalKind (classCode : Nat) (epc : Epc) (kinds : TemporalKinds) (type : Option DataType) :
    Except Failure (TemporalKind × List (Nat × Epc)) :=
  if type = some .time then
    match Dict.get (classCode,epc) kinds with
    | some kind => .ok (kind,[(classCode,epc)])
    | none => .error (.valueError s!"Unclassified time: ({classCode}, {epc})")
  else .ok (if type = some .date then .date else .datetime,[])

/-- `_build_temporal_entity`, with the entries of the table that it has used; `maximumOfHour` is the key of that
name of an option. -/
def buildTemporalEntity (maximumOfHour : Spec → Option Nat) (classCode : Nat) (prop : MraProperty) (spec : Spec)
    (definitions : Definitions) (kinds : TemporalKinds) :
    Except Failure (Option EntityDefinition × List (Nat × Epc)) := do
  let spec ← resolveRef spec definitions
  let options ← (spec.oneOf.getD [spec]).mapM fun option => resolveRef option definitions
  match options.filter isTemporal with
  | [value] =>
    let size := value.size.getD ((value.type.bind rawTimeTypeSize).getD 0)
    let (kind,used) ← temporalKind classCode prop.epc kinds value.type
    let temporal ← temporalDefinition kind size ((maximumOfHour value).getD 23)
    match ← temporalStates size options with
    | none => pure (none,used)
    | some states =>
      if ¬ (states.map EnumValue.key).Nodup ∨ ¬ (states.map EnumValue.edt).Nodup then
        throw (.valueError "Duplicate temporal special states")
      else pure (some (temporalEntityOf classCode prop temporal states),used)
  | _ => pure (none,[])

/-! ### States -/

theorem size_of_temporalDefinition {kind : TemporalKind} {size maximumHour : Nat} {temporal : TemporalDefinition}
    (h : temporalDefinition kind size maximumHour = .ok temporal) : temporal.kind = kind ∧ temporal.size = size := by
  rw [temporalDefinition] at h
  split_ifs at h
  cases h
  exact ⟨rfl,rfl⟩

theorem fits_of_temporalStates {size : Nat} {options : List Spec} {states : List EnumValue}
    (h : temporalStates size options = .ok (some states)) : ∀ state ∈ states, state.edt < 256^size := by
  induction options generalizing states with
  | nil =>
    cases h
    exact List.forall_mem_nil _
  | cons option options ih =>
    rw [temporalStates] at h
    split at h
    · exact ih h
    · obtain ⟨_,h⟩ := ite_none_eq_some.mp h
      obtain ⟨optionSize,_,h⟩ := bind_eq_ok.mp h
      obtain ⟨_,h⟩ := ite_none_eq_some.mp h
      obtain ⟨parsed,_,h⟩ := bind_eq_ok.mp h
      obtain ⟨_,h⟩ := ite_error_eq_ok.mp h
      obtain ⟨hfits,h⟩ := ite_error_eq_ok.mp h
      obtain ⟨rest,hrest,h⟩ := bind_eq_ok.mp h
      cases rest with
      | none => cases h
      | some rest =>
        cases h
        have hpow : 2^(size*8) = 256^size := by rw [Nat.mul_comm,Nat.pow_mul]
        rw [not_not,hpow] at hfits
        intro state hstate
        exact (List.mem_append.mp hstate).elim (hfits state) (ih hrest state)

/-- A temporal entity has distinct states that fit its width. -/
theorem temporal_of_build {maximumOfHour : Spec → Option Nat} {classCode : Nat} {prop : MraProperty} {spec : Spec}
    {definitions : Definitions} {kinds : TemporalKinds} {entity : EntityDefinition} {used : List (Nat × Epc)}
    (h : buildTemporalEntity maximumOfHour classCode prop spec definitions kinds = .ok (some entity,used)) :
    ∃ temporal states, entity = temporalEntityOf classCode prop temporal states ∧
      (TemporalCodec.mk temporal states).Distinct := by
  obtain ⟨spec,_,h⟩ := bind_eq_ok.mp h
  obtain ⟨options,_,h⟩ := bind_eq_ok.mp h
  split at h
  · next value _ =>
    obtain ⟨⟨kind,used⟩,_,h⟩ := bind_eq_ok.mp h
    obtain ⟨temporal,htemporal,h⟩ := bind_eq_ok.mp h
    obtain ⟨states,hstates,h⟩ := bind_eq_ok.mp h
    cases states with
    | none => cases h
    | some states =>
      obtain ⟨hdistinct,h⟩ := ite_error_eq_ok.mp h
      cases h
      rw [not_or,not_not,not_not] at hdistinct
      refine ⟨temporal,states,rfl,hdistinct.1,hdistinct.2,?_⟩
      rw [(size_of_temporalDefinition htemporal).2]
      exact fits_of_temporalStates hstates
  · cases h

end Pyhems.Generator

import Pyhems.Codec.Tiling

/-! Objects whose fields choose between options of different widths. The decoder goes by the total
width alone, so bytes that were written with one choice can be read with another. -/
namespace Pyhems.Codec
open Protocol Library Cutting
open PropertyValueDefinition (byteSize byteSizes totalSize fixedSizeOptions)

/-! ### Fixed widths -/

variable {env : Environment} {value : PropertyValueDefinition} {size : Nat} {chunk : Bytes}

theorem byteSize_oneOf {options : List PropertyValueDefinition} (h : byteSize (.oneOf options) = some size) :
    ∃ sizes, byteSizes options = some sizes ∧ ∀ width ∈ sizes, width = size := by
  rw [byteSize] at h
  obtain ⟨sizes,hsizes,hsingle⟩ := Option.bind_eq_some_iff.mp h
  refine ⟨sizes,hsizes,fun width hwidth => ?_⟩
  split at hsingle
  · next only hdedup =>
    cases hsingle
    have hmem := List.mem_dedup.mpr hwidth
    rw [hdedup] at hmem
    exact List.mem_singleton.mp hmem
  · cases hsingle

/-- A definition with a fixed width offers no other width. -/
theorem place_of_byteSize (h : byteSize value = some size) :
    ∃ sizes, value.place = .options sizes ∧ ∀ width ∈ sizes, width = size := by
  cases value with
  | scalar definition => exact ⟨_,rfl,by simp [fixedSizeOptions,h]⟩
  | object fields => exact ⟨_,rfl,by simp [fixedSizeOptions,h]⟩
  | array item itemSize minItems maxItems =>
    rw [byteSize] at h
    cases h
  | oneOf options =>
    obtain ⟨sizes,hsizes,hall⟩ := byteSize_oneOf h
    refine ⟨sizes,?_,hall⟩
    rw [place_of_not_array rfl,fixedSizeOptions,hsizes,Option.getD_some]

theorem length_of_cuts {fields : List (ObjectField PropertyValueDefinition)} {choice : List Nat}
    {slices : List Bytes} (hsize : totalSize fields = some size)
    (hcuts : Cuts (layout fields) choice chunk slices) : chunk.length = size := by
  induction fields generalizing size choice chunk slices with
  | nil =>
    rw [totalSize] at hsize
    cases hsize
    cases hcuts
    rfl
  | cons field fields ih =>
    obtain ⟨key,value,nameEn,nameJa⟩ := field
    rw [totalSize] at hsize
    obtain ⟨first,hfirst,hrest⟩ := Option.bind_eq_some_iff.mp hsize
    obtain ⟨others,hothers,he⟩ := Option.bind_eq_some_iff.mp hrest
    cases he
    obtain ⟨sizes,hplace,hall⟩ := place_of_byteSize hfirst
    rw [layout,List.map_cons,hplace] at hcuts
    obtain ⟨i,width,rest,later,hwidth,hle,_,_,hcuts⟩ := cuts_options.mp hcuts
    have hlater := ih hothers hcuts
    rw [List.length_drop] at hlater
    have := hall width (List.mem_of_getElem? hwidth)
    omega

mutual

/-- What decodes to a value has the width of its definition. -/
theorem length_of_found : ∀ (value : PropertyValueDefinition) {size : Nat} {result : Decoded},
    byteSize value = some size → decodePropertyValue env value chunk = .ok result →
    result.found = true → chunk.length = size
  | .scalar definition, size, result, hsize, hdecode, hfound => by
    rw [byteSize] at hsize
    cases hsize
    by_contra hlength
    rw [decodePropertyValue,decodeScalar,if_pos hlength] at hdecode
    cases hdecode
    cases hfound
  | .oneOf options, size, result, hsize, hdecode, hfound => by
    obtain ⟨sizes,hsizes,hall⟩ := byteSize_oneOf hsize
    rw [decodePropertyValue] at hdecode
    exact length_of_found_option options hsizes hall hdecode hfound
  | .object fields, size, result, hsize, hdecode, hfound => by
    rw [decode_object] at hdecode
    cases hcut : firstCut (layout fields) chunk with
    | none =>
      rw [hcut] at hdecode
      cases hdecode
      cases hfound
    | some slices =>
      obtain ⟨choice,hfirst⟩ := firstCut_first hcut
      rw [byteSize] at hsize
      exact length_of_cuts hsize hfirst.1
  | .array .., size, result, hsize, _, _ => by
    rw [byteSize] at hsize
    cases hsize

theorem length_of_found_option : ∀ (options : List PropertyValueDefinition) {size : Nat} {sizes : List Nat}
    {result : Decoded}, byteSizes options = some sizes → (∀ width ∈ sizes, width = size) →
    decodeOptions env options chunk = .ok result → result.found = true → chunk.length = size
  | [], size, sizes, result, _, _, hdecode, hfound => by
    rw [decodeOptions] at hdecode
    cases hdecode
    cases hfound
  | option :: options, size, sizes, result, hsizes, hall, hdecode, hfound => by
    rw [byteSizes] at hsizes
    obtain ⟨first,hfirst,hrest⟩ := Option.bind_eq_some_iff.mp hsizes
    obtain ⟨others,hothers,he⟩ := Option.bind_eq_some_iff.mp hrest
    cases he
    rw [decodeOptions] at hdecode
    cases hoption : decodePropertyValue env option chunk with
    | error failure =>
      rw [hoption] at hdecode
      cases hdecode
    | ok decoded =>
      rw [hoption] at hdecode
      simp only [bind,Except.bind] at hdecode
      split at hdecode
      · next hdecoded =>
        cases hdecode
        exact (length_of_found option hfirst hoption hdecoded).trans (hall first List.mem_cons_self)
      · exact length_of_found_option options hothers
          (fun width hwidth => hall width (List.mem_cons_of_mem _ hwidth)) hdecode hfound

end

/-! ### Readings -/

def PropertyValueDefinition.choices : PropertyValueDefinition → List PropertyValueDefinition
  | .oneOf options => options
  | value => [value]

/-- A field whose options have fixed widths, and bytes that one of the options decodes to a value. -/
structure Reading (env : Environment) where
  field : ObjectField PropertyValueDefinition
  fixed : field.value.fixedSizeOptions.isSome = true
  index : Nat
  option : PropertyValueDefinition
  chosen : field.value.choices[index]? = some option
  bytes : Bytes
  value : Decoded
  decodes : decodePropertyValue env option bytes = .ok value
  found : value.found = true

def fieldsOf (readings : List (Reading env)) : List (ObjectField PropertyValueDefinition) :=
  readings.map Reading.field

/-- The bytes of the readings, one after the other. -/
def edtOf (readings : List (Reading env)) : Bytes := (readings.map Reading.bytes).flatten

/-- Every field decodes to some value, and to the chosen one if no other options decode the same
bytes. -/
def ReadAligned (readings : List (Reading env)) : Prop :=
  ∃ entries, decodePropertyValue env (.object (fieldsOf readings)) (edtOf readings) = .ok (.dict entries) ∧
    (∀ reading ∈ readings, ∃ value,
      Dict.get reading.field.key entries = some value ∧ value.found = true) ∧
    ((∀ other : List (Reading env), fieldsOf other = fieldsOf readings → edtOf other = edtOf readings →
        other.map Reading.index = readings.map Reading.index) →
      ∀ reading ∈ readings, Dict.get reading.field.key entries = some reading.value)

/-- The widths that are tried first and fill the EDT give every field a slice that it decodes. -/
def FirstDecodes (env : Environment) (fields : List (ObjectField PropertyValueDefinition))
    (edt : Bytes) : Prop :=
  ∃ choice slices, First (layout fields) choice edt slices ∧
    ∀ read ∈ fields.zip slices, ∃ value,
      decodePropertyValue env read.1.value read.2 = .ok value ∧ value.found = true

/-! ### Which bytes are aligned -/

theorem exists_option {options : List PropertyValueDefinition} {result : Decoded}
    (h : decodeOptions env options chunk = .ok result) (hfound : result.found = true) :
    ∃ (i : Nat) (option : PropertyValueDefinition), options[i]? = some option ∧
      decodePropertyValue env option chunk = .ok result := by
  induction options with
  | nil =>
    rw [decodeOptions] at h
    cases h
    cases hfound
  | cons option options ih =>
    rw [decodeOptions] at h
    cases hoption : decodePropertyValue env option chunk with
    | error failure =>
      rw [hoption] at h
      cases h
    | ok decoded =>
      rw [hoption] at h
      simp only [bind,Except.bind] at h
      split at h
      · cases h
        exact ⟨0,option,rfl,hoption⟩
      · obtain ⟨i,option',hget,hdecode⟩ := ih h
        exact ⟨i+1,option',hget,hdecode⟩

theorem exists_choice {result : Decoded} (h : decodePropertyValue env value chunk = .ok result)
    (hfound : result.found = true) :
    ∃ (i : Nat) (option : PropertyValueDefinition), value.choices[i]? = some option ∧
      decodePropertyValue env option chunk = .ok result := by
  cases value with
  | oneOf options =>
    rw [decodePropertyValue] at h
    exact exists_option h hfound
  | scalar _ | object _ | array _ _ _ _ => exact ⟨0,_,rfl,h⟩

theorem byteSize_of_mem {options : List PropertyValueDefinition} (h : (byteSizes options).isSome = true)
    {option : PropertyValueDefinition} (hmem : option ∈ options) : ∃ size, byteSize option = some size := by
  induction options with
  | nil => cases hmem
  | cons first options ih =>
    rw [byteSizes] at h
    obtain ⟨sizes,hsizes⟩ := Option.isSome_iff_exists.mp h
    obtain ⟨size,hsize,hrest⟩ := Option.bind_eq_some_iff.mp hsizes
    obtain ⟨others,hothers,_⟩ := Option.bind_eq_some_iff.mp hrest
    rcases List.mem_cons.mp hmem with rfl | hlater
    · exact ⟨size,hsize⟩
    · exact ih (by rw [hothers]; rfl) hlater

/-- The option that a reading chose has a fixed width. -/
theorem Reading.byteSize (reading : Reading env) : ∃ size, reading.option.byteSize = some size := by
  obtain ⟨field,fixed,index,option,chosen,_⟩ := reading
  have hmem := List.mem_of_getElem? chosen
  cases hvalue : field.value with
  | oneOf options =>
    rw [hvalue] at hmem fixed
    exact byteSize_of_mem fixed hmem
  | scalar _ | object _ | array _ _ _ _ =>
    rw [hvalue] at hmem fixed
    cases List.mem_singleton.mp hmem
    rw [fixedSizeOptions,Option.isSome_map] at fixed
    · exact Option.isSome_iff_exists.mp fixed
    · nofun

/-- Readings of the same option agree once their bytes do, and these have the same length. -/
theorem Reading.eq_of_option {reading other : Reading env} (hfield : other.field = reading.field)
    (hindex : other.index = reading.index) :
    other.bytes.length = reading.bytes.length ∧ (other.bytes = reading.bytes → other = reading) := by
  obtain ⟨size,hsize⟩ := reading.byteSize
  obtain ⟨field,_,index,option,chosen,bytes,value,decodes,found⟩ := reading
  obtain ⟨_,_,_,option',chosen',bytes',value',decodes',found'⟩ := other
  dsimp only at hfield hindex hsize ⊢
  subst hfield hindex
  cases chosen.symm.trans chosen'
  constructor
  · rw [length_of_found option hsize decodes found,length_of_found option hsize decodes' found']
  · rintro rfl
    cases decodes.symm.trans decodes'
    rfl

/-- The options that were chosen split the bytes. -/
theorem readings_ext {readings other : List (Reading env)} (hfields : fieldsOf other = fieldsOf readings)
    (hindices : other.map Reading.index = readings.map Reading.index) (hedt : edtOf other = edtOf readings) :
    other = readings := by
  induction readings generalizing other with
  | nil => exact List.map_eq_nil_iff.mp hfields
  | cons reading readings ih =>
    cases other with
    | nil => cases hfields
    | cons first other =>
      obtain ⟨hfield,hfields⟩ := List.cons.inj hfields
      obtain ⟨hindex,hindices⟩ := List.cons.inj hindices
      obtain ⟨hlength,heq⟩ := Reading.eq_of_option hfield hindex
      obtain ⟨hbytes,hedt⟩ := List.append_inj hedt hlength
      rw [heq hbytes,ih hfields hindices hedt]

/-- Slices that their fields decode are readings. -/
theorem readings_of_slices {readings : List (Reading env)} {slices : List Bytes}
    (hlength : slices.length = readings.length)
    (h : ∀ read ∈ (fieldsOf readings).zip slices, ∃ value,
      decodePropertyValue env read.1.value read.2 = .ok value ∧ value.found = true) :
    ∃ other : List (Reading env), fieldsOf other = fieldsOf readings ∧ other.map Reading.bytes = slices ∧
      ∀ reading ∈ other, decodePropertyValue env reading.field.value reading.bytes = .ok reading.value := by
  induction readings generalizing slices with
  | nil =>
    cases List.length_eq_zero_iff.mp hlength
    exact ⟨[],rfl,rfl,nofun⟩
  | cons reading readings ih =>
    cases slices with
    | nil => cases hlength
    | cons slice slices =>
      obtain ⟨value,hvalue,hfound⟩ := h (reading.field,slice) List.mem_cons_self
      obtain ⟨i,option,hchosen,hdecode⟩ := exists_choice hvalue hfound
      obtain ⟨other,hfields,hbytes,hall⟩ :=
        ih (Nat.succ.inj hlength) fun read hread => h read (List.mem_cons_of_mem _ hread)
      refine ⟨⟨reading.field,reading.fixed,i,option,hchosen,slice,value,hdecode,hfound⟩ :: other,?_,?_,?_⟩
      · rw [fieldsOf,List.map_cons,← fieldsOf,hfields]
        rfl
      · rw [List.map_cons,hbytes]
      · rw [List.forall_mem_cons]
        exact ⟨hvalue,hall⟩

/-- Without repeated keys, every field has the decoding of its slice. -/
theorem Corresponds.value_of_mem {reads : List (ObjectField PropertyValueDefinition × Bytes)}
    {entries : List (String × Decoded)} (h : Corresponds env reads entries)
    (hkeys : (reads.map fun read => read.1.key).Nodup) {field : ObjectField PropertyValueDefinition}
    {slice : Bytes} (hmem : (field,slice) ∈ reads) :
    ∃ value, decodePropertyValue env field.value slice = .ok value ∧
      Dict.get field.key entries = some value := by
  obtain ⟨before,after,rfl⟩ := List.append_of_mem hmem
  apply h.values before field slice after rfl
  intro read hread hkey
  rw [List.map_append,List.map_cons,List.nodup_append] at hkeys
  exact (List.nodup_cons.mp hkeys.2.1).1 (hkey ▸ List.mem_map_of_mem hread)

/-- Alternatives are read as they were written exactly where the first split by widths decodes. -/
theorem readAligned_iff (env : Environment) (readings : List (Reading env))
    (hkeys : ((fieldsOf readings).map ObjectField.key).Nodup) :
    ReadAligned readings ↔ FirstDecodes env (fieldsOf readings) (edtOf readings) := by
  have hreads : ∀ slices : List Bytes, slices.length = (fieldsOf readings).length →
      (((fieldsOf readings).zip slices).map fun read => read.1.key).Nodup := by
    intro slices hlength
    have hfst : ((fieldsOf readings).zip slices).map Prod.fst = fieldsOf readings :=
      List.map_fst_zip (Nat.le_of_eq hlength.symm)
    rwa [← hfst,List.map_map] at hkeys
  obtain ⟨hdict,_,hcut,hraise⟩ := object_tiles env (fieldsOf readings) (edtOf readings)
  constructor
  · rintro ⟨entries,hentries,hfound,_⟩
    obtain ⟨choice,slices,hfirst,hlength,_,hreads'⟩ := hcut entries hentries
    refine ⟨choice,slices,hfirst,fun read hread => ?_⟩
    obtain ⟨field,slice⟩ := read
    obtain ⟨value,hvalue,hget⟩ := hreads'.value_of_mem (hreads slices hlength) hread
    obtain ⟨reading,hreading,rfl⟩ := List.mem_map.mp (List.of_mem_zip hread).1
    obtain ⟨value',hget',hfound'⟩ := hfound reading hreading
    cases hget.symm.trans hget'
    exact ⟨value,hvalue,hfound'⟩
  · rintro ⟨choice,slices,hfirst,hall⟩
    have hcuts : ∃ choice slices, Cuts (layout (fieldsOf readings)) choice (edtOf readings) slices :=
      ⟨choice,slices,hfirst.1⟩
    have hok : ∀ failure,
        decodePropertyValue env (.object (fieldsOf readings)) (edtOf readings) ≠ .error failure := by
      intro failure he
      obtain ⟨choice',slices',hfirst',field,slice,hmem,hfails⟩ := hraise failure he
      obtain ⟨rfl,rfl⟩ := hfirst.unique hfirst'
      obtain ⟨value,hvalue,_⟩ := hall (field,slice) hmem
      cases hfails.symm.trans hvalue
    obtain ⟨entries,hentries⟩ := hdict.mpr ⟨hcuts,hok⟩
    obtain ⟨choice',slices',hfirst',hlength,hflatten,hreads'⟩ := hcut entries hentries
    obtain ⟨rfl,rfl⟩ := hfirst.unique hfirst'
    have hcount : slices'.length = readings.length := by rw [hlength,fieldsOf,List.length_map]
    obtain ⟨other,hfields,rfl,hother⟩ := readings_of_slices hcount hall
    have hget : ∀ reading ∈ other, Dict.get reading.field.key entries = some reading.value := by
      intro reading hreading
      have hmem : (reading.field,reading.bytes) ∈ (fieldsOf readings).zip (other.map Reading.bytes) := by
        rw [← hfields,fieldsOf,List.zip_map']
        exact List.mem_map_of_mem hreading
      obtain ⟨value,hvalue,hget⟩ := hreads'.value_of_mem (hreads _ hlength) hmem
      cases hvalue.symm.trans (hother reading hreading)
      exact hget
    refine ⟨entries,hentries,fun reading hreading => ?_,fun honly => ?_⟩
    · have hkey : reading.field ∈ fieldsOf other := hfields ▸ List.mem_map_of_mem hreading
      obtain ⟨reading',hreading',hfield⟩ := List.mem_map.mp hkey
      exact ⟨reading'.value,hfield ▸ hget reading' hreading',reading'.found⟩
    · have hsame := readings_ext hfields (honly other hfields hflatten) hflatten
      exact hsame ▸ hget

/-! ### A start and an end -/

def invalid : ScalarDefinition where
  size := 2
  enumValues := [⟨0xFFFF,"invalid","Invalid","Invalid"⟩]

/-- A time of three bytes, or two bytes of 0xFF for none. -/
def timeOrInvalid : PropertyValueDefinition := .oneOf [.scalar {size := 3},.scalar invalid]

def chargeStartTime : ObjectField PropertyValueDefinition := ⟨"chargeStartTime",timeOrInvalid,"",""⟩

def chargeEndTime : ObjectField PropertyValueDefinition := ⟨"chargeEndTime",timeOrInvalid,"",""⟩

theorem decode_invalid (env : Environment) :
    decodePropertyValue env (.scalar invalid) [0xFF,0xFF] = .ok (.value (.text "invalid")) := by
  have hvalue : fromBytes [0xFF,0xFF] = 0xFFFF := by decide
  rw [decodePropertyValue,decodeScalar,hvalue]
  simp [invalid,stateKey,bind,Except.bind,pure,Except.pure]

def invalidTime (env : Environment) (field : ObjectField PropertyValueDefinition)
    (h : field.value = timeOrInvalid) : Reading env where
  field := field
  fixed := by rw [h]; rfl
  index := 1
  option := .scalar invalid
  chosen := by rw [h]; rfl
  bytes := [0xFF,0xFF]
  value := .value (.text "invalid")
  decodes := decode_invalid env
  found := rfl

def givenTime (env : Environment) (field : ObjectField PropertyValueDefinition)
    (h : field.value = timeOrInvalid) (hour minute second : UInt8) : Reading env where
  field := field
  fixed := by rw [h]; rfl
  index := 0
  option := .scalar {size := 3}
  chosen := by rw [h]; rfl
  bytes := [hour,minute,second]
  value := .value (.bytes [hour,minute,second])
  decodes := rfl
  found := rfl

theorem decode_timeOrInvalid (env : Environment) :
    decodePropertyValue env timeOrInvalid [0xFF,0xFF] = .ok (.value (.text "invalid")) := by
  rw [timeOrInvalid,decodePropertyValue,decodeOptions]
  change decodeOptions env [.scalar invalid] [0xFF,0xFF] = _
  rw [decodeOptions,decode_invalid]
  rfl

/-- A start of three bytes, and two bytes for an end that there is not. -/
theorem readAligned_times :
    ReadAligned [givenTime emptyRegistry chargeStartTime rfl 7 30 0,
      invalidTime emptyRegistry chargeEndTime rfl] := by
  apply (readAligned_iff emptyRegistry _ (by decide)).mpr
  obtain ⟨choice,hfirst⟩ := @firstCut_first _ (layout [chargeStartTime,chargeEndTime])
    ([7,30,0,0xFF,0xFF] : Bytes) [[7,30,0],[0xFF,0xFF]] rfl
  refine ⟨choice,_,hfirst,?_⟩
  intro read hread
  rcases List.mem_pair.mp hread with rfl | rfl
  · exact ⟨_,rfl,rfl⟩
  · exact ⟨_,decode_timeOrInvalid emptyRegistry,rfl⟩

/-- The end is not read if only the start is invalid: the first byte of the end is taken for the last
of the start. -/
theorem not_aligned_with_end :
    ¬ ∀ (env : Environment) (readings : List (Reading env)),
      ((fieldsOf readings).map ObjectField.key).Nodup → ReadAligned readings := by
  intro h
  obtain ⟨entries,hentries,hfound,_⟩ :=
    h emptyRegistry [invalidTime _ chargeStartTime rfl,givenTime _ chargeEndTime rfl 7 30 0] (by decide)
  cases hentries
  obtain ⟨value,hget,hvalue⟩ := hfound _ (List.mem_cons_of_mem _ List.mem_cons_self)
  cases hget
  cases hvalue

end Pyhems.Codec

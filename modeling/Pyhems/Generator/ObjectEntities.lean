import Pyhems.Codec.MixedWidths
import Pyhems.Generator.Entities
import Pyhems.Generator.Widths

/-! Objects of a fixed layout as flat entities, one for each field at its own offset. The parser of
structured values reads the same specification on its own; both give a field the same bytes and the
same number. -/
namespace Pyhems.Generator
open Library Codec Fallible Cutting
open PropertyValueDefinition (byteSize byteSizes totalSize)
open Protocol (Bytes slice hexUpper)
open Get (Epc)

/-! ### Entities of an object -/

/-- The entity of a field, for the specification of its number. -/
def fieldEntity (classCode : Nat) (epc : Epc) (prop : PropertyData) (field : Property Spec)
    (number : Spec) (format : String) (coefficientEpcs : List Epc) (byteOffset : Nat) :
    EntityDefinition where
  id :=
    if byteOffset = 0 then s!"class_{hexLower 4 classCode}_epc_{hexLower 2 epc}"
    else s!"class_{hexLower 4 classCode}_epc_{hexLower 2 epc}_{hexLower 2 byteOffset}"
  epc := epc
  nameEn := normalizeTrailingNumber
    s!"{normalizeTrailingNumber prop.propertyName.1} - {field.elementName.1}"
  nameJa := s!"{prop.propertyName.2} {field.elementName.2}"
  readable := isAccessible prop.get
  writable := isAccessible prop.set
  format := some format
  unit := number.unit
  minimum := number.minimum
  maximum := number.maximum
  multipleOf := (orElse (orElse number.multiple number.multipleOf) (some 1)).getD 1
  byteOffset := byteOffset
  coefficientEpcs := if coefficientEpcs = [] then none else some coefficientEpcs

/-- The loop of `_build_entities_from_object_property`, from a field and its offset on. -/
def buildFields (classCode : Nat) (epc : Epc) (prop : PropertyData) (definitions : Definitions) :
    List (Property Spec) → Nat → Except Failure (Option (List EntityDefinition))
  | [], _ => .ok (some [])
  | field :: fields, byteOffset => do
    let element ← resolveRef field.element definitions
    let resolved ← (element.oneOf.getD [element]).mapM fun spec => resolveRef spec definitions
    match resolved.find? fun spec => decide (spec.type = some .number) with
    | none => pure none
    | some number =>
      match number.format with
      | none => pure none
      | some format =>
        match objectFieldByteSize.lookup format with
        | none => pure none
        | some byteCount => do
          let coefficientEpcs ← (number.coefficient.getD []).mapM hexInt
          let entities ← buildFields classCode epc prop definitions fields (byteOffset+byteCount)
          pure (entities.map
            (fieldEntity classCode epc prop field number format coefficientEpcs byteOffset :: ·))

def buildEntitiesFromObjectProperty (classCode : Nat) (epc : Epc) (prop : PropertyData)
    (definitions : Definitions) (atomicPairedEpcs : List Epc) :
    Except Failure (Option (List EntityDefinition)) := do
  if epc ∈ atomicPairedEpcs then pure none
  else
    let dataSpec ← resolveRef prop.data definitions
    if dataSpec.type ≠ some .object then pure none
    else if isAccessible prop.get = false ∧ isAccessible prop.set = false then
      throw (.assertionError (s!"Property for class 0x{hexUpper 4 classCode} EPC 0x{hexUpper 2 epc} " ++
        "is neither readable nor writable"))
    else
      let properties ← required "properties" dataSpec.properties
      buildFields classCode epc prop definitions properties 0

/-! ### The number of a field -/

def numberScalar : PropertyValueDefinition → Option ScalarDefinition
  | .scalar scalar => if scalar.format.isSome then some scalar else none
  | _ => none

/-- The number option of a value: the value itself, or the first number of a oneOf. -/
def numberOption : PropertyValueDefinition → Option ScalarDefinition
  | .oneOf options => options.findSome? numberScalar
  | value => numberScalar value

/-- A specification inside an object: the object itself, the element of a field, or an option. -/
inductive Inside (definitions : Definitions) (whole : Spec) : Spec → Prop where
  | whole : Inside definitions whole whole
  | field {spec resolved : Spec} {properties : List (Property Spec)} {field : Property Spec}
      (h : Inside definitions whole spec) (hresolved : resolveRef spec definitions = .ok resolved)
      (hproperties : resolved.properties = some properties) (hmem : field ∈ properties) :
      Inside definitions whole field.element
  | option {spec option : Spec} {options : List Spec} (h : Inside definitions whole spec)
      (hone : spec.oneOf = some options) (hmem : option ∈ options) : Inside definitions whole option

/-- The form of the MRA: a oneOf has no other key that counts, and a shared definition is neither a
oneOf nor a reference. -/
structure MraForm (definitions : Definitions) (whole : Spec) : Prop where
  alone : ∀ spec, Inside definitions whole spec → spec.oneOf ≠ none → spec.type = none ∧ spec.ref = none
  shared : ∀ name definition, definitions name = some definition →
    definition.oneOf = none ∧ definition.ref = none

variable {definitions : Definitions} {depth : Nat} {whole spec option resolved number leaf : Spec}
  {value : PropertyValueDefinition} {scalar : ScalarDefinition} {format : String}

theorem parseLeaf_number (h : parseLeaf leaf = .ok scalar) (htype : leaf.type = some .number) :
    ∃ coefficientEpcs, (leaf.coefficient.getD []).mapM hexInt = .ok coefficientEpcs ∧ scalar = {
      size := (leaf.format.bind fun format => objectFieldByteSize.lookup format).getD 1
      format := leaf.format
      unit := leaf.unit
      minimum := leaf.minimum
      maximum := leaf.maximum
      multipleOf := (orElse (orElse leaf.multiple leaf.multipleOf) (some 1)).getD 1
      coefficientEpcs } := by
  rw [parseLeaf,htype] at h
  obtain ⟨coefficientEpcs,hcoefficients,h⟩ := bind_eq_ok.mp h
  cases h
  exact ⟨coefficientEpcs,hcoefficients,rfl⟩

/-- Only numbers have a format. -/
theorem parseLeaf_format (h : parseLeaf leaf = .ok scalar) (htype : leaf.type ≠ some .number) :
    scalar.format = none := by
  unfold parseLeaf at h
  split at h
  · obtain ⟨size,_,h⟩ := bind_eq_ok.mp h
    obtain ⟨entries,_,h⟩ := bind_eq_ok.mp h
    cases h
    rfl
  · obtain ⟨size,_,h⟩ := bind_eq_ok.mp h
    obtain ⟨states,_,h⟩ := bind_eq_ok.mp h
    cases h
    rfl
  · obtain ⟨text,_,h⟩ := bind_eq_ok.mp h
    obtain ⟨base,_,h⟩ := bind_eq_ok.mp h
    obtain ⟨limit,_,h⟩ := bind_eq_ok.mp h
    obtain ⟨maximum,_,h⟩ := bind_eq_ok.mp h
    cases h
    rfl
  · next hnumber => exact absurd hnumber htype
  · split at h
    · cases h
      rfl
    · cases h
      rfl

/-- A resolved specification is no oneOf, and resolving it again changes nothing. -/
theorem MraForm.resolve (hform : MraForm definitions whole) (hone : spec.oneOf = none)
    (h : resolveRef spec definitions = .ok resolved) :
    resolved.oneOf = none ∧ resolveRef resolved definitions = .ok resolved := by
  have hself := h
  unfold resolveRef at h
  split at h
  · next name hname =>
    obtain ⟨definition,hdefinition,he⟩ := bind_eq_ok.mp h
    cases he
    obtain ⟨hshared,href⟩ := hform.shared name definition (required_eq_ok.mp hdefinition)
    refine ⟨by simp [Spec.merge,hone,hshared],?_⟩
    have hplain : (definition.merge spec).ref.bind definitionName = none := by simp [Spec.merge,href]
    rw [resolveRef,hplain]
  · cases h
    exact ⟨hone,hself⟩

/-- What is a number once it is resolved was no oneOf before. -/
theorem MraForm.oneOf_of_number (hform : MraForm definitions whole) (hinside : Inside definitions whole spec)
    (h : resolveRef spec definitions = .ok resolved) (htype : resolved.type = some .number) :
    spec.oneOf = none := by
  by_contra hone
  obtain ⟨hplain,href⟩ := hform.alone spec hinside hone
  rw [resolveRef,href] at h
  cases h
  rw [hplain] at htype
  cases htype

/-- A number is parsed to the scalar of its specification. -/
theorem parse_number (hone : spec.oneOf = none) (hresolved : resolveRef spec definitions = .ok number)
    (htype : number.type = some .number) (h : parseValueSpec definitions depth spec = .ok value) :
    ∃ scalar, value = .scalar scalar ∧ parseLeaf number = .ok scalar := by
  obtain ⟨d,_,hstep⟩ := parsedTo h
  cases hstep with
  | oneOf hone' => cases hone.symm.trans hone'
  | array _ hresolved' htype' | object _ hresolved' htype' =>
    cases hresolved.symm.trans hresolved'
    cases htype.symm.trans htype'
  | scalar _ hresolved' _ hread =>
    cases hresolved.symm.trans hresolved'
    exact ⟨_,rfl,hread⟩

/-- Nothing else is parsed to a number. -/
theorem numberScalar_of_not_number (hresolved : resolveRef spec definitions = .ok resolved)
    (htype : resolved.type ≠ some .number) (h : parseValueSpec definitions depth spec = .ok value) :
    numberScalar value = none := by
  obtain ⟨d,_,hstep⟩ := parsedTo h
  cases hstep with
  | oneOf | array | object => rfl
  | scalar _ hresolved' _ hread =>
    cases hresolved.symm.trans hresolved'
    simp [numberScalar,parseLeaf_format hread htype]

theorem numberScalar_of_number (h : parseLeaf number = .ok scalar) (htype : number.type = some .number)
    (hformat : number.format = some format) : numberScalar (.scalar scalar) = some scalar := by
  obtain ⟨coefficientEpcs,_,rfl⟩ := parseLeaf_number h htype
  simp [numberScalar,hformat]

/-- Both translations pick the same option of a oneOf. -/
theorem findSome_number (hform : MraForm definitions whole) {options resolved : List Spec}
    {values : List PropertyValueDefinition} (hinside : ∀ option ∈ options, Inside definitions whole option)
    (hresolved : List.Forall₂ (fun option spec => resolveRef option definitions = .ok spec) options resolved)
    (hvalues : List.Forall₂ (fun option value => parseValueSpec definitions depth option = .ok value)
      options values)
    (hnumber : resolved.find? (fun spec => decide (spec.type = some .number)) = some number)
    (hformat : number.format = some format) :
    ∃ scalar, values.findSome? numberScalar = some scalar ∧ parseLeaf number = .ok scalar := by
  induction hresolved generalizing values with
  | nil => cases hnumber
  | @cons option spec options resolved hspec _ ih =>
    obtain ⟨value,values,hvalue,hrest,rfl⟩ := List.forall₂_cons_left_iff.mp hvalues
    obtain ⟨hhead,htail⟩ := List.forall_mem_cons.mp hinside
    rw [List.find?_cons] at hnumber
    rw [List.findSome?_cons]
    by_cases htype : spec.type = some .number
    · simp only [htype,decide_true] at hnumber
      cases hnumber
      have hone := hform.oneOf_of_number hhead hspec htype
      obtain ⟨scalar,rfl,hread⟩ := parse_number hone hspec htype hvalue
      rw [numberScalar_of_number hread htype hformat]
      exact ⟨scalar,rfl,hread⟩
    · simp only [htype,decide_false] at hnumber
      rw [numberScalar_of_not_number hspec htype hvalue]
      exact ih htail hrest hnumber

/-- The number that an element is resolved to is the number option of what it is parsed to. -/
theorem numberOption_of_element (hform : MraForm definitions whole) (hinside : Inside definitions whole spec)
    {element : Spec} {resolved : List Spec} (helement : resolveRef spec definitions = .ok element)
    (hresolved : (element.oneOf.getD [element]).mapM (fun spec => resolveRef spec definitions) = .ok resolved)
    (hnumber : resolved.find? (fun spec => decide (spec.type = some .number)) = some number)
    (hformat : number.format = some format) (hparse : parseValueSpec definitions depth spec = .ok value) :
    ∃ scalar, numberOption value = some scalar ∧ parseLeaf number = .ok scalar := by
  have hall := mapM_eq_ok.mp hresolved
  cases hone : spec.oneOf with
  | none =>
    obtain ⟨hplain,hagain⟩ := hform.resolve hone helement
    rw [hplain,Option.getD_none] at hall
    obtain ⟨again,rest,hspec,hrest,rfl⟩ := List.forall₂_cons_left_iff.mp hall
    cases List.forall₂_nil_left_iff.mp hrest
    cases hagain.symm.trans hspec
    have hmem := List.mem_of_find?_eq_some hnumber
    cases List.mem_singleton.mp hmem
    have htype : number.type = some .number := by simpa using List.find?_some hnumber
    obtain ⟨scalar,rfl,hread⟩ := parse_number hone helement htype hparse
    exact ⟨scalar,numberScalar_of_number hread htype hformat,hread⟩
  | some options =>
    obtain ⟨_,href⟩ := hform.alone spec hinside (by simp [hone])
    rw [resolveRef,href] at helement
    cases helement
    rw [hone,Option.getD_some] at hall
    obtain ⟨d,_,hstep⟩ := parsedTo hparse
    cases hstep with
    | oneOf hone' hvalues =>
      cases hone.symm.trans hone'
      exact findSome_number hform (fun option hmem => hinside.option hone hmem) hall hvalues hnumber hformat
    | array hone' | object hone' | scalar hone' => cases hone.symm.trans hone'

/-! ### One field -/

/-- The format has the same width in both tables. -/
theorem formatInfo_of_byteSize {size : Nat} (h : objectFieldByteSize.lookup format = some size) :
    ∃ signed, formatInfo.lookup format = some (signed,size) := by
  have hall : ∀ entry ∈ objectFieldByteSize, ∃ signed, formatInfo.lookup entry.1 = some (signed,entry.2) := by
    decide
  obtain ⟨before,after,htable,_⟩ := List.lookup_eq_some_iff.mp h
  exact hall (format,size) (by rw [htable]; simp)

/-- An entity has the number and the place of a field. -/
structure Flat (offset : Nat) (entity : EntityDefinition) (field : ObjectField PropertyValueDefinition)
    (scalar : ScalarDefinition) : Prop where
  option : numberOption field.value = some scalar
  offset : entity.byteOffset = offset
  plain : entity.temporal = none ∧ entity.numericValues = none ∧ entity.enumValues = []
  leaf : scalar.numericValues = none ∧ scalar.enumValues = []
  number : entity.format = scalar.format ∧ entity.multipleOf = scalar.multipleOf ∧
    entity.minimum = scalar.minimum ∧ entity.maximum = scalar.maximum
  coefficients : entity.coefficientEpcs.getD [] = scalar.coefficientEpcs
  width : ∃ format signed, scalar.format = some format ∧ formatInfo.lookup format = some (signed,scalar.size)

theorem flat_fieldEntity {classCode : Nat} {epc : Epc} {prop : PropertyData} {property : Property Spec}
    {coefficientEpcs : List Epc} {byteCount offset : Nat} (field : ObjectField PropertyValueDefinition)
    (htype : number.type = some .number) (hformat : number.format = some format)
    (hsize : objectFieldByteSize.lookup format = some byteCount)
    (hcoefficients : (number.coefficient.getD []).mapM hexInt = .ok coefficientEpcs)
    (hread : parseLeaf number = .ok scalar) (hoption : numberOption field.value = some scalar) :
    scalar.size = byteCount ∧
      Flat offset (fieldEntity classCode epc prop property number format coefficientEpcs offset) field scalar := by
  obtain ⟨others,hothers,rfl⟩ := parseLeaf_number hread htype
  cases hcoefficients.symm.trans hothers
  obtain ⟨signed,hinfo⟩ := formatInfo_of_byteSize hsize
  have hwidth : (number.format.bind fun format => objectFieldByteSize.lookup format).getD 1 = byteCount := by
    simp [hformat,hsize]
  refine ⟨hwidth,hoption,rfl,⟨rfl,rfl,rfl⟩,⟨rfl,rfl⟩,⟨hformat.symm,rfl,rfl,rfl⟩,?_,format,signed,hformat,?_⟩
  · by_cases hnone : coefficientEpcs = [] <;> simp [fieldEntity,hnone]
  · rw [hinfo,hwidth]

theorem numberScalar_eq_some (h : numberScalar value = some scalar) : value = .scalar scalar := by
  cases value with
  | scalar definition =>
    obtain ⟨_,he⟩ := Option.ite_none_right_eq_some.mp h
    cases he
    rfl
  | object _ | array _ _ _ _ | oneOf _ => cases h

theorem mem_byteSizes {options : List PropertyValueDefinition} {sizes : List Nat}
    (h : byteSizes options = some sizes) (hmem : .scalar scalar ∈ options) : scalar.size ∈ sizes := by
  induction options generalizing sizes with
  | nil => cases hmem
  | cons option options ih =>
    rw [byteSizes] at h
    obtain ⟨size,hsize,h⟩ := Option.bind_eq_some_iff.mp h
    obtain ⟨others,hothers,h⟩ := Option.bind_eq_some_iff.mp h
    cases h
    rcases List.mem_cons.mp hmem with rfl | hlater
    · rw [byteSize] at hsize
      cases hsize
      exact List.mem_cons_self
    · exact List.mem_cons_of_mem _ (ih hothers hlater)

/-- Where all options have one width, it is the width of the number. -/
theorem fixed_of_number {size : Nat} (hoption : numberOption value = some scalar)
    (hsize : byteSize value = some size) : scalar.size = size ∧ value.place.Fixed size := by
  cases value with
  | scalar definition =>
    have hscalar : numberScalar (.scalar definition) = some scalar := hoption
    cases numberScalar_eq_some hscalar
    rw [byteSize] at hsize
    cases hsize
    exact ⟨rfl,[scalar.size],rfl,List.cons_ne_nil _ _,by simp⟩
  | oneOf options =>
    obtain ⟨option,hmem,hscalar⟩ := List.exists_of_findSome?_eq_some hoption
    cases numberScalar_eq_some hscalar
    obtain ⟨sizes,hsizes,hall⟩ := byteSize_oneOf hsize
    have hwidth := mem_byteSizes hsizes hmem
    refine ⟨hall _ hwidth,sizes,?_,List.ne_nil_of_mem hwidth,hall⟩
    rw [place_of_not_array rfl,PropertyValueDefinition.fixedSizeOptions,hsizes,Option.getD_some]
  | object _ | array _ _ _ _ => cases hoption

/-! ### All fields -/

/-- The entities follow the fields: each at the offset where the fields before it end. -/
inductive Flattens : Nat → List EntityDefinition → List (ObjectField PropertyValueDefinition) →
    List Nat → Prop where
  | nil {offset : Nat} : Flattens offset [] [] []
  | cons {offset : Nat} {entity : EntityDefinition} {field : ObjectField PropertyValueDefinition}
      {scalar : ScalarDefinition} {entities : List EntityDefinition}
      {fields : List (ObjectField PropertyValueDefinition)} {widths : List Nat}
      (hflat : Flat offset entity field scalar)
      (hrest : Flattens (offset+scalar.size) entities fields widths) :
      Flattens offset (entity :: entities) (field :: fields) (scalar.size :: widths)

theorem buildFields_flattens (hform : MraForm definitions whole) {classCode : Nat} {epc : Epc}
    {prop : PropertyData} {properties : List (Property Spec)}
    {fields : List (ObjectField PropertyValueDefinition)} {entities : List EntityDefinition} {offset total : Nat}
    (hinside : ∀ property ∈ properties, Inside definitions whole property.element)
    (hfields : List.Forall₂ (fun property field =>
      parseValueSpec definitions depth property.element = .ok field.value) properties fields)
    (hbuild : buildFields classCode epc prop definitions properties offset = .ok (some entities))
    (htotal : totalSize fields = some total) :
    ∃ widths, Flattens offset entities fields widths ∧ widths.sum = total ∧
      List.Forall₂ Place.Fixed (layout fields) widths := by
  induction hfields generalizing offset entities total with
  | nil =>
    cases hbuild
    rw [totalSize] at htotal
    cases htotal
    exact ⟨[],.nil,rfl,.nil⟩
  | @cons property field properties fields hparse _ ih =>
    obtain ⟨hhead,htail⟩ := List.forall_mem_cons.mp hinside
    obtain ⟨key,value,nameEn,nameJa⟩ := field
    rw [totalSize] at htotal
    obtain ⟨size,hsize,htotal⟩ := Option.bind_eq_some_iff.mp htotal
    obtain ⟨others,hothers,htotal⟩ := Option.bind_eq_some_iff.mp htotal
    cases htotal
    rw [buildFields] at hbuild
    obtain ⟨element,helement,hbuild⟩ := bind_eq_ok.mp hbuild
    obtain ⟨resolved,hresolved,hbuild⟩ := bind_eq_ok.mp hbuild
    split at hbuild
    · cases hbuild
    · next number hnumber =>
      split at hbuild
      · cases hbuild
      · next format hformat =>
        split at hbuild
        · cases hbuild
        · next byteCount hlookup =>
          obtain ⟨coefficientEpcs,hcoefficients,hbuild⟩ := bind_eq_ok.mp hbuild
          obtain ⟨rest,hrest,hbuild⟩ := bind_eq_ok.mp hbuild
          obtain ⟨later,rfl,rfl⟩ := Option.map_eq_some_iff.mp (Except.ok.inj hbuild)
          obtain ⟨scalar,hoption,hread⟩ :=
            numberOption_of_element hform hhead helement hresolved hnumber hformat hparse
          have htype : number.type = some .number := by simpa using List.find?_some hnumber
          obtain ⟨hwidth,hflat⟩ := flat_fieldEntity ⟨key,value,nameEn,nameJa⟩ htype hformat hlookup
            hcoefficients hread hoption
          obtain ⟨rfl,hfixed⟩ := fixed_of_number hoption hsize
          subst hwidth
          obtain ⟨widths,hflattens,hsum,hplaces⟩ := ih htail hrest hothers
          exact ⟨scalar.size :: widths,.cons hflat hflattens,by rw [List.sum_cons,hsum],.cons hfixed hplaces⟩

/-! ### Reading -/

variable {env : Environment} {edt : Bytes} {entity : EntityDefinition}
  {field : ObjectField PropertyValueDefinition} {offset : Nat}

/-- The codec of an entity reads the number option of a field from the slice of the field, and nothing
else. There is a codec if all coefficients have one; if not, both reads fail alike, except that without a class the
structured read of a number with coefficients is nothing. -/
structure Agrees (env : Environment) (edt : Bytes) (entity : EntityDefinition)
    (field : ObjectField PropertyValueDefinition) (own : Bytes) (scalar : ScalarDefinition) : Prop where
  option : numberOption field.value = some scalar
  place : own = slice edt entity.byteOffset (entity.byteOffset+scalar.size)
  codec : (∃ codec, getCodec env.registry entity env.classCode = .ok codec) ↔
    ∀ epc ∈ scalar.coefficientEpcs, ∃ classCode codec, env.classCode = some classCode ∧
      getCodecForEpc env.registry classCode epc none 0 = .ok codec
  value : (scalar.coefficientEpcs = [] ∨ env.classCode ≠ none) →
    (do let codec ← getCodec env.registry entity env.classCode
        pure (Decoded.value (← codec.decode env.arithmetic env.context edt))) =
      decodePropertyValue env (.scalar scalar) own
  unscaled : scalar.coefficientEpcs ≠ [] → env.classCode = none →
    decodePropertyValue env (.scalar scalar) own = .ok (.value .none)
  alone : ∀ codec other, getCodec env.registry entity env.classCode = .ok codec →
    other.length = edt.length → slice other entity.byteOffset (entity.byteOffset+scalar.size) = own →
    codec.decode env.arithmetic env.context other = codec.decode env.arithmetic env.context edt

/-- At its offset, a number is read as from its own slice. -/
theorem decode_numeric_slice {signed : Bool} {size : Nat} (hinfo : formatInfo.lookup format = some (signed,size))
    (hlength : offset+size ≤ edt.length) (arithmetic : Arithmetic) (scale : ℚ) (minimum maximum : Option ℚ)
    (coefficients : List (Epc × PropertyCodec)) (context : Option Context) :
    PropertyCodec.decode arithmetic (.numeric format scale minimum maximum offset coefficients) context edt =
      PropertyCodec.decode arithmetic (.numeric format scale minimum maximum 0 coefficients) context
        (slice edt offset (offset+size)) := by
  have hslice : (slice edt offset (offset+size)).length = size := by
    rw [Protocol.length_slice hlength,Nat.add_sub_cancel_left]
  have hwhole : slice (slice edt offset (offset+size)) 0 (0+size) = slice edt offset (offset+size) := by
    generalize slice edt offset (offset+size) = own at hslice
    rw [slice,List.drop_zero]
    exact List.take_of_length_le (by omega)
  have hraw : PropertyCodec.raw format minimum maximum offset edt =
      PropertyCodec.raw format minimum maximum 0 (slice edt offset (offset+size)) := by
    have hlong : ¬ edt.length < offset+size := by omega
    have hlong' : ¬ (slice edt offset (offset+size)).length < 0+size := by omega
    simp only [PropertyCodec.raw,hinfo,if_neg hlong,if_neg hlong',hwhole]
  rw [PropertyCodec.decode,PropertyCodec.decode,hraw]

theorem format_ne_empty {signed : Bool} {size : Nat} (h : formatInfo.lookup format = some (signed,size)) :
    format ≠ "" := by
  rintro rfl
  cases h

/-- Only the text of the failure without a class depends on the EPC. -/
theorem coefficientCodecs_congr {lookup : Nat → Epc → Except Failure PropertyCodec} {coefficientEpcs : List Epc}
    {classCode : Option Nat} (h : coefficientEpcs = [] ∨ classCode ≠ none) (epc epc' : Epc) :
    coefficientCodecs lookup coefficientEpcs classCode epc = coefficientCodecs lookup coefficientEpcs classCode epc' := by
  cases coefficientEpcs with
  | nil => rfl
  | cons first others =>
    cases classCode with
    | none =>
      rcases h with h | h
      · cases h
      · exact absurd rfl h
    | some classCode => rfl

theorem coefficientCodecs_total {lookup : Nat → Epc → Except Failure PropertyCodec} {coefficientEpcs : List Epc}
    {classCode : Option Nat} (epc : Epc) :
    (∃ coefficients, coefficientCodecs lookup coefficientEpcs classCode epc = .ok coefficients) ↔
      ∀ epc ∈ coefficientEpcs, ∃ code codec, classCode = some code ∧ lookup code epc = .ok codec := by
  cases coefficientEpcs with
  | nil => exact iff_of_true ⟨[],rfl⟩ (List.forall_mem_nil _)
  | cons first others =>
    cases classCode with
    | none =>
      refine iff_of_false ?_ fun hall => ?_
      · rintro ⟨_,h⟩
        cases h
      · obtain ⟨_,_,hnone,_⟩ := hall first List.mem_cons_self
        cases hnone
    | some classCode =>
      constructor
      · rintro ⟨coefficients,h⟩ epc hmem
        obtain ⟨coefficient,_,hcoefficient⟩ := exists_mem_zip (mapM_eq_ok.mp h) hmem
        obtain ⟨codec,hcodec,_⟩ := bind_eq_ok.mp hcoefficient
        exact ⟨classCode,codec,rfl,hcodec⟩
      · intro hall
        refine exists_mapM_eq_ok_of_total _ fun epc hmem => ?_
        obtain ⟨code,codec,hcode,hcodec⟩ := hall epc hmem
        cases hcode
        exact ⟨(epc,codec),by rw [hcodec]; rfl⟩

/-- The codec is that of a number at the offset, once the coefficients have theirs. -/
theorem Flat.getCodec_eq (h : Flat offset entity field scalar) :
    ∃ format signed, scalar.format = some format ∧ formatInfo.lookup format = some (signed,scalar.size) ∧
      ∀ registry classCode, getCodec registry entity classCode =
        (.numeric format scalar.multipleOf scalar.minimum scalar.maximum offset ·) <$>
          coefficientCodecs (fun classCode epc => getCodecForEpc registry classCode epc none 0)
            scalar.coefficientEpcs classCode entity.epc := by
  obtain ⟨htemporal,hnumeric,hstates⟩ := h.plain
  obtain ⟨hformat,hscale,hminimum,hmaximum⟩ := h.number
  obtain ⟨format,signed,hsome,hinfo⟩ := h.width
  refine ⟨format,signed,hsome,hinfo,fun registry classCode => ?_⟩
  have hfilter : entity.format.filter (· ≠ "") = some format := by
    rw [hformat,hsome]
    simp [format_ne_empty hinfo]
  unfold getCodec getCodecWith
  simp only [htemporal,hnumeric,hstates,hfilter,ne_eq,not_true_eq_false,if_false]
  rw [h.coefficients,hscale,hminimum,hmaximum,h.offset]
  rfl

theorem Flat.agrees (h : Flat offset entity field scalar) (env : Environment)
    (hlength : offset+scalar.size ≤ edt.length) :
    Agrees env edt entity field (slice edt offset (offset+scalar.size)) scalar := by
  obtain ⟨format,signed,hformat,hinfo,hcodec⟩ := h.getCodec_eq
  have hown : (slice edt offset (offset+scalar.size)).length = scalar.size := by
    rw [Protocol.length_slice hlength,Nat.add_sub_cancel_left]
  have hfilter : scalar.format.filter (· ≠ "") = some format := by
    rw [hformat]
    simp [format_ne_empty hinfo]
  refine ⟨h.option,by rw [h.offset],?_,fun hgiven => ?_,fun hsome hnone => ?_,fun codec other hother hsame hread => ?_⟩
  · rw [hcodec,← coefficientCodecs_total entity.epc]
    simp only [map_eq_ok]
    constructor
    · rintro ⟨_,coefficients,hcoefficients,_⟩
      exact ⟨coefficients,hcoefficients⟩
    · rintro ⟨coefficients,hcoefficients⟩
      exact ⟨_,coefficients,hcoefficients,rfl⟩
  · have hnot : ¬ (scalar.coefficientEpcs ≠ [] ∧ env.classCode = none) :=
      fun hne => hgiven.elim hne.1 (absurd hne.2)
    rw [hcodec,decodePropertyValue,decodeScalar,if_neg (fun hne => hne hown)]
    simp only [h.leaf.1,h.leaf.2,hfilter,ne_eq,not_true_eq_false,if_false,if_neg hnot]
    rw [coefficientCodecs_congr hgiven entity.epc 0]
    show ((_ <$> coefficientCodecs env.lookup scalar.coefficientEpcs env.classCode 0) >>= _) =
      (coefficientCodecs env.lookup scalar.coefficientEpcs env.classCode 0 >>= _) >>= _
    cases coefficientCodecs env.lookup scalar.coefficientEpcs env.classCode 0 with
    | error failure => rfl
    | ok coefficients =>
      show (PropertyCodec.decode _ _ _ _ >>= _) = (PropertyCodec.decode _ _ _ _ >>= _)
      rw [decode_numeric_slice hinfo hlength]
  · rw [decodePropertyValue,decodeScalar,if_neg (fun hne => hne hown)]
    simp only [h.leaf.1,h.leaf.2,hfilter,ne_eq,not_true_eq_false,if_false]
    rw [if_pos ⟨hsome,hnone⟩]
    rfl
  · rw [hcodec,map_eq_ok] at hother
    obtain ⟨coefficients,_,rfl⟩ := hother
    rw [h.offset] at hread
    rw [decode_numeric_slice hinfo hlength,decode_numeric_slice hinfo (hsame ▸ hlength),hread]

theorem Flattens.agrees {entities : List EntityDefinition} {fields : List (ObjectField PropertyValueDefinition)}
    {widths : List Nat} (h : Flattens offset entities fields widths) (env : Environment)
    (hlength : offset+widths.sum ≤ edt.length) :
    List.Forall₂ (fun entity read => ∃ scalar, Agrees env edt entity read.1 read.2 scalar) entities
      (fields.zip (slicesOf widths (edt.drop offset))) := by
  induction h with
  | nil => exact .nil
  | @cons offset entity field scalar entities fields widths hflat _ ih =>
    rw [List.sum_cons] at hlength
    have hnext : (edt.drop offset).drop scalar.size = edt.drop (offset+scalar.size) := List.drop_drop
    have hown : (edt.drop offset).take scalar.size = slice edt offset (offset+scalar.size) := by
      rw [slice,Nat.add_sub_cancel_left]
    rw [slicesOf,hnext,hown]
    exact .cons ⟨scalar,hflat.agrees env (by omega)⟩ (ih (by omega))

/-- Flattened fields agree with the structured decoder: the entity of a field reads what the number
option of the field gives for the field's own bytes. -/
theorem objectEntities_agree {classCode : Nat} {epc : Epc} {prop : PropertyData} {atomicPairedEpcs : List Epc}
    {entities : List EntityDefinition} (hform : MraForm definitions prop.data)
    (hbuild : buildEntitiesFromObjectProperty classCode epc prop definitions atomicPairedEpcs =
      .ok (some entities))
    (hparse : parseValueSpec definitions depth prop.data = .ok value) (env : Environment)
    (hlength : byteSize value = some edt.length) :
    ∃ fields slices, value = .object fields ∧ slices.flatten = edt ∧
      decodePropertyValue env value edt = (readFields env (fields.zip slices)).map .dict ∧
      List.Forall₂ (fun entity read => ∃ scalar, Agrees env edt entity read.1 read.2 scalar) entities
        (fields.zip slices) := by
  unfold buildEntitiesFromObjectProperty at hbuild
  split at hbuild
  · cases hbuild
  obtain ⟨dataSpec,hdata,hbuild⟩ := bind_eq_ok.mp hbuild
  split at hbuild
  · cases hbuild
  next htype =>
    rw [ne_eq,not_not] at htype
    split at hbuild
    · cases hbuild
    obtain ⟨properties,hproperties,hbuild⟩ := bind_eq_ok.mp hbuild
    have hget := required_eq_ok.mp hproperties
    obtain ⟨d,_,hstep⟩ := parsedTo hparse
    cases hstep with
    | oneOf hone =>
      obtain ⟨hplain,href⟩ := hform.alone _ .whole (by simp [hone])
      rw [resolveRef,href] at hdata
      cases hdata
      cases hplain.symm.trans htype
    | array _ hresolved htype' =>
      cases hdata.symm.trans hresolved
      cases htype.symm.trans htype'
    | scalar _ hresolved hleaf =>
      cases hdata.symm.trans hresolved
      exact absurd htype hleaf.2
    | @object _ _ fields _ hresolved _ hproperties' hfields =>
      cases hdata.symm.trans hresolved
      cases hget.symm.trans hproperties'
      rw [byteSize] at hlength
      obtain ⟨widths,hflattens,hsum,hplaces⟩ := buildFields_flattens hform
        (fun property hmem => Inside.whole.field hdata hget hmem) hfields hbuild hlength
      have hcut : firstCut (layout fields) edt = some (slicesOf widths edt) := firstCut_fixed hplaces hsum.symm
      refine ⟨fields,slicesOf widths edt,rfl,flatten_slicesOf hsum.symm,?_,?_⟩
      · rw [decode_object,hcut,Option.elim_some]
      · exact hflattens.agrees env (Nat.le_of_eq ((Nat.zero_add _).trans hsum))

/-! ### A measurement channel -/

def channelEnergySpec : Spec where
  type := some .number
  format := some "uint32"
  unit := some "kWh"
  minimum := some 0
  maximum := some 99999999

def noEnergySpec : Spec where
  type := some .state
  size := some 4
  enum := some [⟨"0xFFFFFFFE",some "noData",some ("No data",""),none⟩]

def channelCurrentSpec : Spec where
  type := some .number
  format := some "int16"
  unit := some "A"
  minimum := some (-32767)
  maximum := some 32765

def channelSpec : Spec where
  type := some .object
  properties := some
    [⟨"electricEnergy",("Energy",""),{oneOf := some [channelEnergySpec,noEnergySpec]}⟩,
      ⟨"current",("Current",""),channelCurrentSpec⟩]

def channelProperty : PropertyData where
  epc := "0xD0"
  propertyName := ("Measurement channel 1","")
  descriptions := ("","")
  get := .required
  set := .other "notApplicable"
  data := channelSpec

theorem inside_channel (h : Inside (fun _ => none) channelSpec spec) :
    spec = channelSpec ∨ spec = {oneOf := some [channelEnergySpec,noEnergySpec]} ∨
      spec = channelCurrentSpec ∨ spec = channelEnergySpec ∨ spec = noEnergySpec := by
  induction h with
  | whole => exact .inl rfl
  | field h hresolved hproperties hmem ih =>
    rcases ih with rfl | rfl | rfl | rfl | rfl
    · cases hresolved
      cases hproperties
      rcases List.mem_pair.mp hmem with rfl | rfl
      · exact .inr (.inl rfl)
      · exact .inr (.inr (.inl rfl))
    all_goals
      cases hresolved
      cases hproperties
  | option h hone hmem ih =>
    rcases ih with rfl | rfl | rfl | rfl | rfl
    · cases hone
    · cases hone
      rcases List.mem_pair.mp hmem with rfl | rfl
      · exact .inr (.inr (.inr (.inl rfl)))
      · exact .inr (.inr (.inr (.inr rfl)))
    all_goals cases hone

theorem channel_mraForm : MraForm (fun _ => none) channelSpec where
  alone spec h hone := by
    rcases inside_channel h with rfl | rfl | rfl | rfl | rfl
    · exact absurd rfl hone
    · exact ⟨rfl,rfl⟩
    all_goals exact absurd rfl hone
  shared name definition h := by cases h

def channelEnergy : ScalarDefinition where
  size := 4
  format := some "uint32"
  unit := some "kWh"
  minimum := some 0
  maximum := some 99999999

def noEnergy : ScalarDefinition where
  size := 4
  enumValues := [⟨0xFFFFFFFE,"noData","No data",""⟩]

def channelCurrent : ScalarDefinition where
  size := 2
  format := some "int16"
  unit := some "A"
  minimum := some (-32767)
  maximum := some 32765

def channelValue : PropertyValueDefinition :=
  .object [⟨"electricEnergy",.oneOf [.scalar channelEnergy,.scalar noEnergy],"Energy",""⟩,
    ⟨"current",.scalar channelCurrent,"Current",""⟩]

def channelEdt : Bytes := [0x00,0x00,0x01,0x00,0xFF,0xFF]

theorem parse_channel : parseValueSpec (fun _ => none) 3 channelProperty.data = .ok channelValue := rfl

/-- The energy is 256 and the current -1, whichever way they are read. -/
theorem objectEntities_agree_channel : ∃ entities,
    buildEntitiesFromObjectProperty 0x0287 0xD0 channelProperty (fun _ => none) [] = .ok (some entities) ∧
    ∃ (fields : List (ObjectField PropertyValueDefinition)) (slices : List Bytes),
      slices.flatten = channelEdt ∧ List.Forall₂ (fun entity read => ∃ scalar,
        Agrees emptyRegistry channelEdt entity read.1 read.2 scalar) entities (fields.zip slices) ∧
      (entities.map fun entity => do
        let codec ← getCodec emptyRegistry.registry entity emptyRegistry.classCode
        codec.decode emptyRegistry.arithmetic emptyRegistry.context channelEdt) =
          [.ok (.number 256),.ok (.number (-1))] := by
  have hbuild : ∃ entities,
      buildEntitiesFromObjectProperty 0x0287 0xD0 channelProperty (fun _ => none) [] = .ok (some entities) :=
    ⟨_,rfl⟩
  obtain ⟨entities,hbuild⟩ := hbuild
  have hsize : byteSize channelValue = some channelEdt.length := rfl
  obtain ⟨fields,slices,_,hflatten,_,hagree⟩ :=
    objectEntities_agree channel_mraForm hbuild parse_channel emptyRegistry hsize
  refine ⟨entities,hbuild,fields,slices,hflatten,hagree,?_⟩
  cases hbuild
  rfl

end Pyhems.Generator

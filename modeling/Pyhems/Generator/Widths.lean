import Pyhems.Codec.Tiling
import Pyhems.Generator.Spec
import Pyhems.Library.Fallible

/-! The widths that a specification declares, and the widths of the definition that it is parsed to. -/
namespace Pyhems.Generator
open Library Codec Cutting Fallible
open Protocol (Bytes)

/-! ### Declared widths -/

/-- The width by `size`, or by `minSize` and `maxSize` if they are equal. -/
def Spec.explicitWidth (leaf : Spec) : Option Nat :=
  leaf.size <|> (if leaf.minSize = leaf.maxSize then leaf.maxSize else none)

def Spec.formatWidth (leaf : Spec) : Option Nat :=
  leaf.format.bind fun format => objectFieldByteSize.lookup format

/-- The width that a leaf declares: explicitly, or else by its format or its standard type. -/
def Spec.declaredWidth (leaf : Spec) : Option Nat :=
  leaf.explicitWidth <|>
    match leaf.type with
    | some .number => leaf.formatWidth
    | type => type.bind rawTimeTypeSize

/-- A leaf that declares no other width than the parser knows. -/
def Spec.Standard (leaf : Spec) : Prop :=
  match leaf.type with
  | some .numericValue | some .state => True
  | some .level => ∀ width ∈ leaf.explicitWidth, width = 1
  | some .number => ∀ width ∈ leaf.explicitWidth, width = leaf.formatWidth.getD 1
  | type =>
    match type.bind rawTimeTypeSize with
    | some standard => ∀ width ∈ leaf.explicitWidth, width = standard
    | none => leaf.size = none → ∀ width ∈ leaf.explicitWidth, width = 1

variable {definitions : Definitions} {depth : Nat} {spec leaf : Spec} {scalar : ScalarDefinition}
  {value : PropertyValueDefinition}

/-- A leaf keeps its width exactly if it declares no other. -/
theorem parseLeaf_size (h : parseLeaf leaf = .ok scalar) :
    (∀ width ∈ leaf.declaredWidth, scalar.size = width) ↔ leaf.Standard := by
  unfold parseLeaf at h
  rw [Spec.declaredWidth,Spec.Standard]
  split at h
  · next htype =>
    obtain ⟨size,hsize,h⟩ := bind_eq_ok.mp h
    obtain ⟨entries,_,h⟩ := bind_eq_ok.mp h
    cases h
    rw [htype,Spec.explicitWidth,required_eq_ok.mp hsize]
    simp
  · next htype =>
    obtain ⟨size,hsize,h⟩ := bind_eq_ok.mp h
    obtain ⟨states,_,h⟩ := bind_eq_ok.mp h
    cases h
    rw [htype,Spec.explicitWidth,required_eq_ok.mp hsize]
    simp
  · next htype =>
    obtain ⟨text,_,h⟩ := bind_eq_ok.mp h
    obtain ⟨base,_,h⟩ := bind_eq_ok.mp h
    obtain ⟨limit,_,h⟩ := bind_eq_ok.mp h
    obtain ⟨maximum,_,h⟩ := bind_eq_ok.mp h
    cases h
    rw [htype]
    cases leaf.explicitWidth <;> simp [rawTimeTypeSize,eq_comm]
  · next htype =>
    obtain ⟨coefficients,_,h⟩ := bind_eq_ok.mp h
    cases h
    rw [htype]
    change (∀ width ∈ _,leaf.formatWidth.getD 1 = width) ↔ _
    cases leaf.explicitWidth with
    | none => cases leaf.formatWidth <;> simp
    | some width => simp [eq_comm]
  · next hnumeric hstate hlevel hnumber =>
    cases htime : leaf.type.bind rawTimeTypeSize with
    | some standard =>
      rw [htime] at h
      cases h
      cases leaf.explicitWidth <;> simp [htime,eq_comm]
    | none =>
      rw [htime] at h
      cases h
      rw [Spec.explicitWidth]
      cases leaf.size with
      | none => simp [htime,eq_comm]
      | some size => simp [htime]

/-! ### Leaves -/

def Spec.isLeaf (resolved : Spec) : Prop := resolved.type ≠ some .array ∧ resolved.type ≠ some .object

/-- A leaf below a specification, with its reference resolved. -/
inductive LeafSpec (definitions : Definitions) : Spec → Spec → Prop where
  | here {spec leaf : Spec} (hone : spec.oneOf = none) (hresolved : resolveRef spec definitions = .ok leaf)
      (hleaf : leaf.isLeaf) : LeafSpec definitions spec leaf
  | option {spec option leaf : Spec} {options : List Spec} (hone : spec.oneOf = some options)
      (hmem : option ∈ options) (h : LeafSpec definitions option leaf) : LeafSpec definitions spec leaf
  | item {spec resolved item leaf : Spec} (hone : spec.oneOf = none)
      (hresolved : resolveRef spec definitions = .ok resolved) (htype : resolved.type = some .array)
      (hitems : resolved.items = some item) (h : LeafSpec definitions item leaf) :
      LeafSpec definitions spec leaf
  | field {spec resolved leaf : Spec} {properties : List (Property Spec)} {field : Property Spec}
      (hone : spec.oneOf = none) (hresolved : resolveRef spec definitions = .ok resolved)
      (htype : resolved.type = some .object) (hproperties : resolved.properties = some properties)
      (hmem : field ∈ properties) (h : LeafSpec definitions field.element leaf) :
      LeafSpec definitions spec leaf

/-- A leaf below a specification and the scalar at the same place of a definition. -/
inductive LeafOf (definitions : Definitions) :
    Spec → PropertyValueDefinition → Spec → ScalarDefinition → Prop where
  | here {spec leaf : Spec} {scalar : ScalarDefinition} (hone : spec.oneOf = none)
      (hresolved : resolveRef spec definitions = .ok leaf) (hleaf : leaf.isLeaf) :
      LeafOf definitions spec (.scalar scalar) leaf scalar
  | option {spec option leaf : Spec} {options : List Spec} {value : PropertyValueDefinition}
      {values : List PropertyValueDefinition} {scalar : ScalarDefinition}
      (hone : spec.oneOf = some options) (hmem : (option,value) ∈ options.zip values)
      (h : LeafOf definitions option value leaf scalar) :
      LeafOf definitions spec (.oneOf values) leaf scalar
  | item {spec resolved item leaf : Spec} {value : PropertyValueDefinition} {itemSize : Nat}
      {minItems maxItems : Option Nat} {scalar : ScalarDefinition} (hone : spec.oneOf = none)
      (hresolved : resolveRef spec definitions = .ok resolved) (htype : resolved.type = some .array)
      (hitems : resolved.items = some item) (h : LeafOf definitions item value leaf scalar) :
      LeafOf definitions spec (.array value itemSize minItems maxItems) leaf scalar
  | field {spec resolved leaf : Spec} {properties : List (Property Spec)} {property : Property Spec}
      {fields : List (ObjectField PropertyValueDefinition)} {field : ObjectField PropertyValueDefinition}
      {scalar : ScalarDefinition} (hone : spec.oneOf = none)
      (hresolved : resolveRef spec definitions = .ok resolved) (htype : resolved.type = some .object)
      (hproperties : resolved.properties = some properties) (hmem : (property,field) ∈ properties.zip fields)
      (h : LeafOf definitions property.element field.value leaf scalar) :
      LeafOf definitions spec (.object fields) leaf scalar

/-! ### What the parser does at one specification -/

variable {read : Spec → Except Failure ScalarDefinition}

inductive ParsedTo (read : Spec → Except Failure ScalarDefinition) (definitions : Definitions) (depth : Nat) :
    Spec → PropertyValueDefinition → Prop where
  | oneOf {spec : Spec} {options : List Spec} {values : List PropertyValueDefinition}
      (hone : spec.oneOf = some options)
      (hvalues : List.Forall₂ (fun option value => parseWith read definitions depth option = .ok value)
        options values) : ParsedTo read definitions depth spec (.oneOf values)
  | array {spec resolved item : Spec} {itemSize : Nat} {value : PropertyValueDefinition}
      (hone : spec.oneOf = none) (hresolved : resolveRef spec definitions = .ok resolved)
      (htype : resolved.type = some .array) (hitems : resolved.items = some item)
      (hvalue : parseWith read definitions depth item = .ok value) :
      ParsedTo read definitions depth spec (.array value itemSize resolved.minItems resolved.maxItems)
  | object {spec resolved : Spec} {properties : List (Property Spec)}
      {fields : List (ObjectField PropertyValueDefinition)} (hone : spec.oneOf = none)
      (hresolved : resolveRef spec definitions = .ok resolved) (htype : resolved.type = some .object)
      (hproperties : resolved.properties = some properties)
      (hfields : List.Forall₂ (fun property field =>
        parseWith read definitions depth property.element = .ok field.value) properties fields) :
      ParsedTo read definitions depth spec (.object fields)
  | scalar {spec leaf : Spec} {scalar : ScalarDefinition} (hone : spec.oneOf = none)
      (hresolved : resolveRef spec definitions = .ok leaf) (hleaf : leaf.isLeaf)
      (hread : read leaf = .ok scalar) : ParsedTo read definitions depth spec (.scalar scalar)

theorem parsedTo (h : parseWith read definitions depth spec = .ok value) :
    ∃ d, depth = d+1 ∧ ParsedTo read definitions d spec value := by
  cases depth with
  | zero => cases h
  | succ d =>
    refine ⟨d,rfl,?_⟩
    rw [parseWith] at h
    split at h
    · next options hone =>
      obtain ⟨values,hvalues,he⟩ := bind_eq_ok.mp h
      cases he
      exact .oneOf hone (mapM_eq_ok.mp hvalues)
    · next hone =>
      obtain ⟨resolved,hresolved,h⟩ := bind_eq_ok.mp h
      split at h
      · next htype =>
        obtain ⟨item,hitem,h⟩ := bind_eq_ok.mp h
        obtain ⟨value,hvalue,h⟩ := bind_eq_ok.mp h
        obtain ⟨itemSize,_,h⟩ := bind_eq_ok.mp h
        cases h
        exact .array hone hresolved htype (required_eq_ok.mp hitem) hvalue
      · next htype =>
        obtain ⟨properties,hproperties,h⟩ := bind_eq_ok.mp h
        obtain ⟨fields,hfields,h⟩ := bind_eq_ok.mp h
        cases h
        refine .object hone hresolved htype (required_eq_ok.mp hproperties) ((mapM_eq_ok.mp hfields).imp ?_)
        intro property field hfield
        obtain ⟨value,hvalue,h⟩ := bind_eq_ok.mp hfield
        cases h
        exact hvalue
      · next harray hobject =>
        obtain ⟨scalar,hread,h⟩ := bind_eq_ok.mp h
        cases h
        exact .scalar hone hresolved ⟨harray,hobject⟩ hread

/-- Parsing looks at the leaves only. -/
theorem parseWith_congr {read read' : Spec → Except Failure ScalarDefinition}
    (h : ∀ leaf, LeafSpec definitions spec leaf → read leaf = read' leaf) :
    parseWith read definitions depth spec = parseWith read' definitions depth spec := by
  induction depth generalizing spec with
  | zero => rfl
  | succ depth ih =>
    rw [parseWith,parseWith]
    split
    · next options hone =>
      rw [mapM_congr fun option hmem => ih fun leaf hleaf => h leaf (.option hone hmem hleaf)]
    · next hone =>
      refine bind_congr_ok fun resolved hresolved => ?_
      split
      · next htype =>
        refine bind_congr_ok fun item hitem => ?_
        have hitems := required_eq_ok.mp hitem
        rw [ih fun leaf hleaf => h leaf (.item hone hresolved htype hitems hleaf)]
      · next htype =>
        refine bind_congr_ok fun properties hget => ?_
        have hproperties := required_eq_ok.mp hget
        rw [mapM_congr fun field hmem => ?_]
        rw [ih fun leaf hleaf => h leaf (.field hone hresolved htype hproperties hmem hleaf)]
      · next harray hobject => rw [h resolved (.here hone hresolved ⟨harray,hobject⟩)]

theorem LeafOf.parsed (h : LeafOf definitions spec value leaf scalar)
    (hparse : parseValueSpec definitions depth spec = .ok value) :
    LeafSpec definitions spec leaf ∧ parseLeaf leaf = .ok scalar := by
  induction h generalizing depth with
  | here hone hresolved hleaf =>
    obtain ⟨d,_,hstep⟩ := parsedTo hparse
    cases hstep with
    | scalar hone' hresolved' hleaf' hread =>
      cases hresolved.symm.trans hresolved'
      exact ⟨.here hone hresolved hleaf,hread⟩
  | option hone hmem _ ih =>
    obtain ⟨d,_,hstep⟩ := parsedTo hparse
    cases hstep with
    | oneOf hone' hvalues =>
      cases hone.symm.trans hone'
      obtain ⟨hleaf,hread⟩ := ih (List.forall₂_zip hvalues hmem)
      exact ⟨.option hone (List.of_mem_zip hmem).1 hleaf,hread⟩
  | item hone hresolved htype hitems _ ih =>
    obtain ⟨d,_,hstep⟩ := parsedTo hparse
    cases hstep with
    | array hone' hresolved' htype' hitems' hvalue =>
      cases hresolved.symm.trans hresolved'
      cases hitems.symm.trans hitems'
      obtain ⟨hleaf,hread⟩ := ih hvalue
      exact ⟨.item hone hresolved htype hitems hleaf,hread⟩
  | field hone hresolved htype hproperties hmem _ ih =>
    obtain ⟨d,_,hstep⟩ := parsedTo hparse
    cases hstep with
    | object hone' hresolved' htype' hproperties' hfields =>
      cases hresolved.symm.trans hresolved'
      cases hproperties.symm.trans hproperties'
      obtain ⟨hleaf,hread⟩ := ih (List.forall₂_zip hfields hmem)
      exact ⟨.field hone hresolved htype hproperties (List.of_mem_zip hmem).1 hleaf,hread⟩

theorem LeafSpec.parsed (h : LeafSpec definitions spec leaf)
    (hparse : parseValueSpec definitions depth spec = .ok value) :
    ∃ scalar, LeafOf definitions spec value leaf scalar ∧ parseLeaf leaf = .ok scalar := by
  induction h generalizing depth value with
  | here hone hresolved hleaf =>
    obtain ⟨d,_,hstep⟩ := parsedTo hparse
    cases hstep with
    | scalar hone' hresolved' hleaf' hread =>
      cases hresolved.symm.trans hresolved'
      exact ⟨_,.here hone hresolved hleaf,hread⟩
    | oneOf hone' => cases hone.symm.trans hone'
    | array _ hresolved' htype =>
      cases hresolved.symm.trans hresolved'
      exact absurd htype hleaf.1
    | object _ hresolved' htype =>
      cases hresolved.symm.trans hresolved'
      exact absurd htype hleaf.2
  | option hone hmem _ ih =>
    obtain ⟨d,_,hstep⟩ := parsedTo hparse
    cases hstep with
    | oneOf hone' hvalues =>
      cases hone.symm.trans hone'
      obtain ⟨value,hzip,hvalue⟩ := exists_mem_zip hvalues hmem
      obtain ⟨scalar,hleaf,hread⟩ := ih hvalue
      exact ⟨scalar,.option hone hzip hleaf,hread⟩
    | array hone' | object hone' | scalar hone' => cases hone.symm.trans hone'
  | item hone hresolved htype hitems _ ih =>
    obtain ⟨d,_,hstep⟩ := parsedTo hparse
    cases hstep with
    | array hone' hresolved' htype' hitems' hvalue =>
      cases hresolved.symm.trans hresolved'
      cases hitems.symm.trans hitems'
      obtain ⟨scalar,hleaf,hread⟩ := ih hvalue
      exact ⟨scalar,.item hone hresolved htype hitems hleaf,hread⟩
    | oneOf hone' => cases hone.symm.trans hone'
    | object _ hresolved' htype' =>
      cases hresolved.symm.trans hresolved'
      cases htype.symm.trans htype'
    | scalar _ hresolved' hleaf =>
      cases hresolved.symm.trans hresolved'
      exact absurd htype hleaf.1
  | field hone hresolved htype hproperties hmem _ ih =>
    obtain ⟨d,_,hstep⟩ := parsedTo hparse
    cases hstep with
    | object hone' hresolved' htype' hproperties' hfields =>
      cases hresolved.symm.trans hresolved'
      cases hproperties.symm.trans hproperties'
      obtain ⟨field,hzip,hvalue⟩ := exists_mem_zip hfields hmem
      obtain ⟨scalar,hleaf,hread⟩ := ih hvalue
      exact ⟨scalar,.field hone hresolved htype hproperties hzip hleaf,hread⟩
    | oneOf hone' => cases hone.symm.trans hone'
    | array _ hresolved' htype' =>
      cases hresolved.symm.trans hresolved'
      cases htype.symm.trans htype'
    | scalar _ hresolved' hleaf =>
      cases hresolved.symm.trans hresolved'
      exact absurd htype hleaf.2

/-! ### Kept widths -/

/-- A leaf at the width that it declares, if it declares one. -/
def declaredLeaf (leaf : Spec) : Except Failure ScalarDefinition := do
  let scalar ← parseLeaf leaf
  pure {scalar with size := leaf.declaredWidth.getD scalar.size}

def declaredValue : Definitions → Nat → Spec → Except Failure PropertyValueDefinition :=
  parseWith declaredLeaf

/-- Raw bytes, or a time of a standard type. -/
def Spec.isRaw (leaf : Spec) : Prop :=
  leaf.isLeaf ∧ ∀ type ∈ leaf.type, type ∉ [.numericValue,.state,.level,.number]

/-- Every leaf has its declared width. An EDT of an object that is cut at declared widths is split there,
every field decodes its slice, and raw fields and times decode to their bytes. -/
structure WidthsKept (definitions : Definitions) (depth : Nat) (spec : Spec) (value : PropertyValueDefinition) :
    Prop where
  leaves : ∀ leaf scalar, LeafOf definitions spec value leaf scalar →
    ∀ width ∈ leaf.declaredWidth, scalar.size = width
  split : ∀ fields declared, value = .object fields →
    declaredValue definitions depth spec = .ok (.object declared) →
    ∀ edt choice slices, Cuts (layout declared) choice edt slices →
      firstCut (layout fields) edt = some slices ∧ ∀ env,
        decodePropertyValue env (.object fields) edt = (readFields env (fields.zip slices)).map .dict ∧
        ∀ resolved properties, resolveRef spec definitions = .ok resolved →
          resolved.properties = some properties →
          ∀ property field slice leaf, (property,field) ∈ properties.zip fields →
            (field,slice) ∈ fields.zip slices → property.element.oneOf = none →
            resolveRef property.element definitions = .ok leaf → leaf.isRaw →
            decodePropertyValue env field.value slice = .ok (.value (.bytes slice))

/-- The leaves declare no widths that the parser does not know, and different choices among the declared
widths of an object never fill the same EDT. -/
structure StandardWidths (definitions : Definitions) (depth : Nat) (spec : Spec) : Prop where
  leaves : ∀ leaf, LeafSpec definitions spec leaf → leaf.Standard
  unambiguous : ∀ declared, declaredValue definitions depth spec = .ok (.object declared) →
    Unambiguous UInt8 (layout declared)

theorem declaredLeaf_eq (h : leaf.Standard) : declaredLeaf leaf = parseLeaf leaf := by
  rw [declaredLeaf]
  cases hparse : parseLeaf leaf with
  | error failure => rfl
  | ok scalar =>
    have hwidth := (parseLeaf_size hparse).mpr h
    cases hdeclared : leaf.declaredWidth with
    | none => rfl
    | some width =>
      rw [← hwidth width hdeclared]
      rfl

theorem parseLeaf_raw (h : leaf.isRaw) : ∃ size, parseLeaf leaf = .ok {size} := by
  obtain ⟨⟨harray,hobject⟩,htype⟩ := h
  rw [parseLeaf]
  split
  · next hnumeric => exact absurd (by simp) (htype _ hnumeric)
  · next hstate => exact absurd (by simp) (htype _ hstate)
  · next hlevel => exact absurd (by simp) (htype _ hlevel)
  · next hnumber => exact absurd (by simp) (htype _ hnumber)
  · cases leaf.type.bind rawTimeTypeSize with
    | none => exact ⟨_,rfl⟩
    | some size => exact ⟨size,rfl⟩

theorem parsed_raw (h : parseValueSpec definitions depth spec = .ok value) (hone : spec.oneOf = none)
    (hresolved : resolveRef spec definitions = .ok leaf) (hraw : leaf.isRaw) :
    ∃ size, value = .scalar {size} := by
  obtain ⟨size,hsize⟩ := parseLeaf_raw hraw
  obtain ⟨d,_,hstep⟩ := parsedTo h
  cases hstep with
  | scalar _ hresolved' _ hread =>
    cases hresolved.symm.trans hresolved'
    cases hsize.symm.trans hread
    exact ⟨size,rfl⟩
  | oneOf hone' => cases hone.symm.trans hone'
  | array _ hresolved' htype =>
    cases hresolved.symm.trans hresolved'
    exact absurd htype hraw.1.1
  | object _ hresolved' htype =>
    cases hresolved.symm.trans hresolved'
    exact absurd htype hraw.1.2

theorem decode_raw (env : Environment) (slice : Bytes) :
    decodePropertyValue env (.scalar {size := slice.length}) slice = .ok (.value (.bytes slice)) := by
  rw [decodePropertyValue,decodeScalar,if_neg fun hne => hne rfl]
  rfl

theorem mem_zip_layout {fields : List (ObjectField PropertyValueDefinition)} {slices : List Bytes}
    {field : ObjectField PropertyValueDefinition} {slice : Bytes} (h : (field,slice) ∈ fields.zip slices) :
    (field.value.place,slice) ∈ (layout fields).zip slices := by
  rw [layout,List.zip_map_left]
  exact List.mem_map_of_mem h

/-- The definition keeps the declared widths exactly if they are the standard ones. -/
theorem widthsKept_iff (h : parseValueSpec definitions depth spec = .ok value) :
    WidthsKept definitions depth spec value ↔ StandardWidths definitions depth spec := by
  have hstandard : (∀ leaf scalar, LeafOf definitions spec value leaf scalar →
      ∀ width ∈ leaf.declaredWidth, scalar.size = width) ↔
      ∀ leaf, LeafSpec definitions spec leaf → leaf.Standard := by
    constructor
    · intro hkept leaf hleaf
      obtain ⟨scalar,hplace,hread⟩ := hleaf.parsed h
      exact (parseLeaf_size hread).mp (hkept leaf scalar hplace)
    · intro hall leaf scalar hplace
      obtain ⟨hleaf,hread⟩ := hplace.parsed h
      exact (parseLeaf_size hread).mpr (hall leaf hleaf)
  have hdeclared : (∀ leaf, LeafSpec definitions spec leaf → leaf.Standard) →
      declaredValue definitions depth spec = .ok value := by
    intro hall
    rw [← h]
    exact parseWith_congr fun leaf hleaf => declaredLeaf_eq (hall leaf hleaf)
  constructor
  · rintro ⟨hleaves,hsplit⟩
    have hall := hstandard.mp hleaves
    refine ⟨hall,fun declared hd => ?_⟩
    cases (hdeclared hall).symm.trans hd
    rw [unambiguous_iff]
    intro edt choice slices hcuts
    exact (hsplit declared declared rfl hd edt choice slices hcuts).1
  · rintro ⟨hall,hone⟩
    refine ⟨hstandard.mpr hall,?_⟩
    rintro fields declared rfl hd edt choice slices hcuts
    cases (hdeclared hall).symm.trans hd
    have hcut := unambiguous_iff.mp (hone fields hd) edt choice slices hcuts
    refine ⟨hcut,fun env => ⟨?_,?_⟩⟩
    · rw [decode_object,hcut,Option.elim_some]
    · intro resolved properties hresolved hproperties property field slice leaf hproperty hslice hleaf href hraw
      obtain ⟨d,_,hstep⟩ := parsedTo h
      cases hstep with
      | object hone' hresolved' htype hproperties' hfields =>
        cases hresolved.symm.trans hresolved'
        cases hproperties.symm.trans hproperties'
        have hvalue := List.forall₂_zip hfields hproperty
        obtain ⟨size,hsize⟩ := parsed_raw hvalue hleaf href hraw
        have hplace : field.value.place = .options [size] := by rw [hsize]; rfl
        have hlength := hcuts.length_mem (hplace ▸ mem_zip_layout hslice)
        cases List.mem_singleton.mp hlength
        rw [hsize,decode_raw]


/-! ### Four bytes -/

def raw4 : Spec where
  type := some (.other "raw")
  minSize := some 4
  maxSize := some 4

/-- Raw bytes, whose size is under the key that is looked for. -/
def rawSpec : Spec where
  type := some (.other "raw")
  size := some 2

def dateSpec : Spec where
  type := some .date

def levelSpec : Spec where
  type := some .number
  format := some "uint8"

def unmeasuredSpec : Spec where
  type := some .state
  size := some 2
  enum := some [⟨"0xFFFF",some "unmeasured",some ("Unmeasured",""),none⟩]

/-- An object of raw bytes, a date, and a level in one byte or two bytes for none. -/
def periodSpec : Spec where
  type := some .object
  properties := some [⟨"kind",("Kind",""),rawSpec⟩,⟨"start",("Start",""),dateSpec⟩,
    ⟨"level",("Level",""),{oneOf := some [levelSpec,unmeasuredSpec]}⟩]

def periodValue : PropertyValueDefinition :=
  .object [⟨"kind",.scalar {size := 2},"Kind",""⟩,⟨"start",.scalar {size := 4},"Start",""⟩,
    ⟨"level",.oneOf [.scalar {size := 1, format := some "uint8"},
      .scalar {size := 2, enumValues := [⟨0xFFFF,"unmeasured","Unmeasured",""⟩]}],"Level",""⟩]

/-- A leaf stands for itself. -/
theorem leafSpec_leaf (hone : spec.oneOf = none) (href : spec.ref = none) (hspec : spec.isLeaf)
    (h : LeafSpec definitions spec leaf) : leaf = spec := by
  have hself : resolveRef spec definitions = .ok spec := by
    rw [resolveRef,href]
    rfl
  cases h with
  | here _ hresolved =>
    cases hself.symm.trans hresolved
    rfl
  | option hone' => cases hone.symm.trans hone'
  | item _ hresolved htype =>
    cases hself.symm.trans hresolved
    exact absurd htype hspec.1
  | field _ hresolved htype =>
    cases hself.symm.trans hresolved
    exact absurd htype hspec.2

theorem leafSpec_period (h : LeafSpec definitions periodSpec leaf) :
    leaf = rawSpec ∨ leaf = dateSpec ∨ leaf = levelSpec ∨ leaf = unmeasuredSpec := by
  cases h with
  | here _ hresolved hleaf =>
    cases hresolved
    exact absurd rfl hleaf.2
  | option hone => cases hone
  | item _ hresolved htype =>
    cases hresolved
    cases htype
  | field _ hresolved _ hproperties hmem h =>
    cases hresolved
    cases hproperties
    rcases List.mem_cons.mp hmem with rfl | hmem
    · exact Or.inl (leafSpec_leaf rfl rfl ⟨nofun,nofun⟩ h)
    rcases List.mem_pair.mp hmem with rfl | rfl
    · exact Or.inr (Or.inl (leafSpec_leaf rfl rfl ⟨nofun,nofun⟩ h))
    · cases h with
      | option hone hmem h =>
        cases hone
        rcases List.mem_pair.mp hmem with rfl | rfl
        · exact Or.inr (Or.inr (Or.inl (leafSpec_leaf rfl rfl ⟨nofun,nofun⟩ h)))
        · exact Or.inr (Or.inr (Or.inr (leafSpec_leaf rfl rfl ⟨nofun,nofun⟩ h)))
      | here hone => cases hone
      | item hone => cases hone
      | field hone => cases hone

theorem widthsKept_period : WidthsKept (fun _ => none) 3 periodSpec periodValue := by
  refine (widthsKept_iff rfl).mpr ⟨?_,?_⟩
  · intro leaf hleaf
    rcases leafSpec_period hleaf with rfl | rfl | rfl | rfl
    · exact nofun
    · rintro width ⟨⟩
    · rintro width ⟨⟩
    · trivial
  · intro declared hd
    have hsame : declaredValue (fun _ => none) 3 periodSpec = .ok periodValue := rfl
    cases hsame.symm.trans hd
    have hlevel : Unambiguous UInt8 [.options [1,2]] := unambiguous_singleton _
    have hstart := hlevel.cons (show ∀ w ∈ [4], w = 4 by decide)
    exact hstart.cons (show ∀ w ∈ [2], w = 2 by decide)

/-- The size of raw bytes is looked for under another key. -/
theorem raw4_width_lost :
    ¬ ∀ definitions depth spec value, parseValueSpec definitions depth spec = .ok value →
      WidthsKept definitions depth spec value := by
  intro h
  have hkept := (h (fun _ => none) 1 raw4 (.scalar {size := 1}) rfl).leaves raw4 {size := 1}
    (.here rfl rfl ⟨nofun,nofun⟩) 4 rfl
  cases hkept

end Pyhems.Generator

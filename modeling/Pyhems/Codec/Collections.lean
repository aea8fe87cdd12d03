import Pyhems.Codec.Tiling

/-! Pages of paged lists. A page says where it starts and how many items it has, and it is taken only
if that many items follow. -/
namespace Pyhems.Codec
open Protocol Library Cutting
open Get (Epc)
open PropertyValueDefinition (byteSizes fixedSizeOptions)

/-- `CollectionBinding`, with the paths that a page is read along. -/
structure CollectionPaths where
  resultEpc : Epc
  itemsPath : List String
  startPath : List String
  pageCountPath : List String

/-- `REGISTRY`, with the structured values and the bindings of paged lists. -/
structure Definitions extends Registry where
  structuredValues : Nat → Epc → Option PropertyValueDefinition
  collectionBindings : Nat → List CollectionPaths

structure CollectionPage where
  start : Int
  count : Int
  items : List Decoded

def getPath : Decoded → List String → Decoded
  | node, [] => node
  | .dict entries, key :: path => getPath ((Dict.get key entries).getD (.value .none)) path
  | _, _ :: _ => .value .none

/-- The number, if `isinstance(value, int)`: an unscaled number is whole, and a bool is an int. A scaled number is a
float in the source and never counts; here it does where it is whole. -/
def Decoded.integer : Decoded → Option Int
  | .value (.number n) => if n.den = 1 then some n.num else none
  | .value (.bool b) => some (if b then 1 else 0)
  | _ => none

def decodeCollection (binding : CollectionPaths) (value : Decoded) : Option CollectionPage :=
  match getPath value binding.itemsPath with
  | .tuple items => do
    let start ← (getPath value binding.startPath).integer
    let pageCount ← (getPath value binding.pageCountPath).integer
    if pageCount ≠ items.length then none
    else pure {start, count := pageCount, items}
  | _ => none

namespace Definitions
variable (definitions : Definitions)

def getStructuredValue (classCode : Nat) (epc : Epc) : Option PropertyValueDefinition :=
  definitions.structuredValues classCode epc

def getCollectionBinding (classCode : Nat) (resultEpc : Epc) : Option CollectionPaths :=
  (definitions.collectionBindings classCode).find? fun binding => decide (binding.resultEpc = resultEpc)

/-- What the values of a device object are decoded with. -/
def environment (arithmetic : Arithmetic) (context : Option Context) (classCode : Nat) : Environment where
  arithmetic := arithmetic
  registry := definitions.toRegistry
  context := context
  classCode := some classCode

def decodeCollectionPage (arithmetic : Arithmetic) (classCode : Nat) (resultEpc : Epc) (edt : Bytes)
    (context : Option Context) : Except Failure (Option CollectionPage) :=
  match definitions.getStructuredValue classCode resultEpc,
    definitions.getCollectionBinding classCode resultEpc with
  | some valueDef,some binding => do
    let value ← decodePropertyValue (definitions.environment arithmetic context classCode) valueDef edt
    pure (if value.found then decodeCollection binding value else none)
  | _,_ => .ok none

end Definitions

/-! ### Lists with a header of two bytes -/

/-- A byte that counts within limits, or else stands for a state. -/
structure PageNumber where
  minimum : Option ℚ
  maximum : Option ℚ
  states : List (List EnumValue)

namespace PageNumber
variable (number : PageNumber)

def definition : PropertyValueDefinition :=
  .oneOf (.scalar {size := 1, format := some "uint8", minimum := number.minimum, maximum := number.maximum} ::
    number.states.map fun enumValues => .scalar {size := 1, enumValues})

/-- The byte is in the declared range. -/
def Admits (byte : UInt8) : Prop := inRange number.minimum number.maximum byte.toNat = true

instance (byte : UInt8) : Decidable (number.Admits byte) := inferInstanceAs (Decidable (_ = _))

end PageNumber

structure PageItems where
  item : PropertyValueDefinition
  itemSize : Nat
  positive : 0 < itemSize
  minItems : Option Nat
  maxItems : Option Nat

/-- A start byte, a count byte and the items. -/
structure PagedList where
  start : ObjectField PageNumber
  count : ObjectField PageNumber
  items : ObjectField PageItems
  distinct : [start.key,count.key,items.key].Nodup

namespace PagedList
variable (list : PagedList)

def startField : ObjectField PropertyValueDefinition :=
  ⟨list.start.key,list.start.value.definition,list.start.nameEn,list.start.nameJa⟩

def countField : ObjectField PropertyValueDefinition :=
  ⟨list.count.key,list.count.value.definition,list.count.nameEn,list.count.nameJa⟩

def itemsField : ObjectField PropertyValueDefinition where
  key := list.items.key
  value := .array list.items.value.item list.items.value.itemSize list.items.value.minItems
    list.items.value.maxItems
  nameEn := list.items.nameEn
  nameJa := list.items.nameJa

def fields : List (ObjectField PropertyValueDefinition) := [list.startField,list.countField,list.itemsField]

def definition : PropertyValueDefinition := .object list.fields

/-- The binding of the list, under the EPC of its property. -/
def binding (resultEpc : Epc) : CollectionPaths where
  resultEpc := resultEpc
  itemsPath := [list.items.key]
  startPath := [list.start.key]
  pageCountPath := [list.count.key]

def itemBytes (edt : Bytes) (i : Nat) : Bytes :=
  slice edt (2+i*list.items.value.itemSize) (2+(i+1)*list.items.value.itemSize)

/-- The items after the header. -/
def decodeItems (env : Environment) (body : Bytes) : Except Failure (List Decoded) :=
  (itemSlices body list.items.value.itemSize (body.length/list.items.value.itemSize)).mapM
    (decodePropertyValue env list.items.value.item)

/-- The page that an EDT is, read off its bytes. -/
structure Page (env : Environment) (edt : Bytes) (page : CollectionPage) : Prop where
  header : ∃ start count body, edt = start :: count :: body ∧
    list.start.value.Admits start ∧ list.count.value.Admits count ∧
    page.start = start.toNat ∧ page.count = count.toNat
  counted : page.count = page.items.length
  length : edt.length = 2+page.items.length*list.items.value.itemSize
  least : ∀ m ∈ list.items.value.minItems, m ≤ page.items.length
  greatest : ∀ m ∈ list.items.value.maxItems, page.items.length ≤ m
  decoded : ∀ (i : Nat) (h : i < page.items.length),
    decodePropertyValue env list.items.value.item (list.itemBytes edt i) = .ok page.items[i]

/-- The header is in its ranges and counts the items that follow, within their limits. -/
def Declared (edt : Bytes) : Prop :=
  ∃ start count body, edt = start :: count :: body ∧
    list.start.value.Admits start ∧ list.count.value.Admits count ∧
    body.length = count.toNat*list.items.value.itemSize ∧
    (∀ m ∈ list.items.value.minItems, m ≤ count.toNat) ∧ ∀ m ∈ list.items.value.maxItems, count.toNat ≤ m

end PagedList

/-! ### Values that are read without failing -/

variable (env : Environment)

namespace PropertyValueDefinition

mutual

def leaves : PropertyValueDefinition → List ScalarDefinition
  | .scalar definition => [definition]
  | .object fields => leavesOfFields fields
  | .array item .. => leaves item
  | .oneOf options => leavesOfOptions options

def leavesOfFields : List (ObjectField PropertyValueDefinition) → List ScalarDefinition
  | [] => []
  | ⟨_,value,_,_⟩ :: fields => leaves value ++ leavesOfFields fields

def leavesOfOptions : List PropertyValueDefinition → List ScalarDefinition
  | [] => []
  | option :: options => leaves option ++ leavesOfOptions options

end

end PropertyValueDefinition

/-- The coefficients of a leaf are known, and reading them does not raise. -/
def ScalarDefinition.Resolved (definition : ScalarDefinition) : Prop :=
  ∀ classCode, env.classCode = some classCode → ∀ epc ∈ definition.coefficientEpcs,
    ∃ codec, env.lookup classCode epc = .ok codec ∧ ∀ edt, ∃ value, codec.decode env.arithmetic none edt = .ok value

variable {env}

theorem PropertyCodec.exists_coefficient {arithmetic : Arithmetic} {coefficients : List (Epc × PropertyCodec)}
    (h : ∀ entry ∈ coefficients, ∀ edt, ∃ value, entry.2.decode arithmetic none edt = .ok value)
    (context : Context) (factor : ℚ) :
    ∃ result, PropertyCodec.coefficient arithmetic coefficients context factor = .ok result := by
  induction coefficients generalizing factor with
  | nil => exact ⟨some factor,rfl⟩
  | cons entry coefficients ih =>
    obtain ⟨epc,codec⟩ := entry
    obtain ⟨hcodec,hrest⟩ := List.forall_mem_cons.mp h
    rw [PropertyCodec.coefficient]
    cases context epc with
    | none => exact ⟨none,rfl⟩
    | some edt =>
      obtain ⟨value,hvalue⟩ := hcodec edt
      simp only [hvalue]
      cases value with
      | number n => exact ih hrest _
      | none | bool _ | text _ | bytes _ | temporal _ => exact ⟨none,rfl⟩

theorem exists_coefficientCodecs {definition : ScalarDefinition} (h : definition.Resolved env)
    (hclass : definition.coefficientEpcs = [] ∨ env.classCode ≠ none) :
    ∃ coefficients, coefficientCodecs env.lookup definition.coefficientEpcs env.classCode 0 = .ok coefficients ∧
      ∀ entry ∈ coefficients, ∀ edt, ∃ value, entry.2.decode env.arithmetic none edt = .ok value := by
  cases hepcs : definition.coefficientEpcs with
  | nil => exact ⟨[],rfl,nofun⟩
  | cons epc epcs =>
    cases hcode : env.classCode with
    | none => exact absurd hcode (hclass.resolve_left (by simp [hepcs]))
    | some classCode =>
      rw [coefficientCodecs]
      · apply Fallible.exists_mapM_eq_ok
        intro epc' hmem
        obtain ⟨codec,hlookup,htotal⟩ := h classCode hcode epc' (hepcs ▸ hmem)
        exact ⟨(epc',codec),by rw [hlookup]; rfl,htotal⟩
      · nofun

theorem decodeScalar_total {definition : ScalarDefinition} (h : definition.Resolved env) (chunk : Bytes) :
    ∃ value, decodeScalar env definition chunk = .ok value := by
  unfold decodeScalar
  split
  · exact ⟨_,rfl⟩
  split
  · exact ⟨_,by rw [PropertyCodec.decode]⟩
  split
  · exact ⟨_,rfl⟩
  split
  · next format _ =>
    split
    · exact ⟨_,rfl⟩
    · next hclass =>
      rw [not_and_or,not_not] at hclass
      obtain ⟨coefficients,hcoefficients,htotal⟩ := exists_coefficientCodecs h hclass
      simp only [hcoefficients,bind,Except.bind]
      rw [PropertyCodec.decode]
      cases PropertyCodec.raw format definition.minimum definition.maximum 0 chunk with
      | none => exact ⟨_,rfl⟩
      | some raw =>
        cases coefficients with
        | nil => exact ⟨_,rfl⟩
        | cons entry coefficients =>
          cases env.context with
          | none => exact ⟨_,rfl⟩
          | some context =>
            obtain ⟨factor,hfactor⟩ := PropertyCodec.exists_coefficient htotal context 1
            simp only [hfactor]
            cases factor <;> exact ⟨_,rfl⟩
  · exact ⟨_,rfl⟩

mutual

/-- A value whose coefficients are resolved is read without failing. -/
theorem decode_total : ∀ (value : PropertyValueDefinition), (∀ leaf ∈ value.leaves, leaf.Resolved env) →
    ∀ chunk, ∃ result, decodePropertyValue env value chunk = .ok result
  | .scalar definition, h, chunk => by
    rw [PropertyValueDefinition.leaves,List.forall_mem_singleton] at h
    obtain ⟨value,hvalue⟩ := decodeScalar_total h chunk
    rw [decodePropertyValue,hvalue]
    exact ⟨_,rfl⟩
  | .oneOf options, h, chunk => by
    rw [PropertyValueDefinition.leaves] at h
    rw [decodePropertyValue]
    exact decode_total_options options h chunk
  | .object fields, h, chunk => by
    rw [PropertyValueDefinition.leaves] at h
    rw [decode_object]
    cases firstCut (layout fields) chunk with
    | none => exact ⟨_,rfl⟩
    | some slices =>
      rw [Option.elim_some]
      cases hread : readFields env (fields.zip slices) with
      | ok entries => exact ⟨_,rfl⟩
      | error failure =>
        obtain ⟨field,slice,hmem,hfails⟩ := readFields_error hread
        obtain ⟨result,hresult⟩ := decode_total_fields fields h field (List.of_mem_zip hmem).1 slice
        cases hfails.symm.trans hresult
  | .array item itemSize minItems maxItems, h, chunk => by
    rw [PropertyValueDefinition.leaves] at h
    rw [decode_array]
    split
    · obtain ⟨items,hitems⟩ := Fallible.exists_mapM_eq_ok_of_total
        (itemSlices chunk itemSize (chunk.length/itemSize)) fun slice _ => decode_total item h slice
      rw [hitems]
      exact ⟨_,rfl⟩
    · exact ⟨_,rfl⟩

theorem decode_total_fields : ∀ (fields : List (ObjectField PropertyValueDefinition)),
    (∀ leaf ∈ PropertyValueDefinition.leavesOfFields fields, leaf.Resolved env) →
    ∀ field ∈ fields, ∀ chunk, ∃ result, decodePropertyValue env field.value chunk = .ok result
  | [], _, field, hmem, _ => absurd hmem List.not_mem_nil
  | ⟨key,value,nameEn,nameJa⟩ :: fields, h, field, hmem, chunk => by
    rw [PropertyValueDefinition.leavesOfFields,List.forall_mem_append] at h
    rcases List.mem_cons.mp hmem with he | hlater
    · rw [he]
      exact decode_total value h.1 chunk
    · exact decode_total_fields fields h.2 field hlater chunk

theorem decode_total_options : ∀ (options : List PropertyValueDefinition),
    (∀ leaf ∈ PropertyValueDefinition.leavesOfOptions options, leaf.Resolved env) →
    ∀ chunk, ∃ result, decodeOptions env options chunk = .ok result
  | [], _, chunk => ⟨_,by rw [decodeOptions]⟩
  | option :: options, h, chunk => by
    rw [PropertyValueDefinition.leavesOfOptions,List.forall_mem_append] at h
    obtain ⟨result,hresult⟩ := decode_total option h.1 chunk
    simp only [decodeOptions,hresult,bind,Except.bind]
    split
    · exact ⟨_,rfl⟩
    · exact decode_total_options options h.2 chunk

end

/-! ### The header -/

variable (env)

theorem decodeScalar_byte (minimum maximum : Option ℚ) (byte : UInt8) :
    decodeScalar env {size := 1, format := some "uint8", minimum, maximum} [byte] =
      .ok (if inRange minimum maximum byte.toNat then .number byte.toNat else .none) := by
  have hraw : PropertyCodec.raw "uint8" minimum maximum 0 [byte] =
      if inRange minimum maximum byte.toNat then some (byte.toNat : Int) else none := by
    simp [PropertyCodec.raw,formatInfo,slice,signedNumber,fromBytes,BigEndian.value]
  have hcodec : decodeScalar env {size := 1, format := some "uint8", minimum, maximum} [byte] =
      PropertyCodec.decode env.arithmetic (.numeric "uint8" 1 minimum maximum 0 []) env.context [byte] := by
    simp [decodeScalar,coefficientCodecs,bind,Except.bind,Option.filter]
  rw [hcodec,PropertyCodec.decode_numeric,hraw]
  split
  · rw [Option.elim_some,if_pos rfl]
    rfl
  · rfl

theorem decodeScalar_state (enumValues : List EnumValue) (byte : UInt8) :
    ∃ value, decodeScalar env {size := 1, enumValues} [byte] = .ok value ∧
      (Decoded.value value).integer = none := by
  by_cases hstates : enumValues = []
  · subst hstates
    exact ⟨_,rfl,rfl⟩
  · refine ⟨stateKey enumValues (fromBytes [byte]),?_,?_⟩
    · simp [decodeScalar,hstates]
    · unfold stateKey
      cases (enumValues.find? fun ev => decide (ev.edt = fromBytes [byte])) <;> rfl

theorem decodeOptions_states (states : List (List EnumValue)) (byte : UInt8) :
    ∃ value, decodeOptions env (states.map fun enumValues => .scalar {size := 1, enumValues}) [byte] = .ok value ∧
      value.integer = none := by
  induction states with
  | nil => exact ⟨_,rfl,rfl⟩
  | cons enumValues states ih =>
    obtain ⟨value,hvalue,hstate⟩ := decodeScalar_state env enumValues byte
    obtain ⟨later,hlater,hnone⟩ := ih
    rw [List.map_cons,decodeOptions,decodePropertyValue,hvalue]
    by_cases hfound : (Decoded.value value).found = true
    · exact ⟨_,if_pos hfound,hstate⟩
    · exact ⟨later,(if_neg hfound).trans hlater,hnone⟩

/-- A header byte is a number exactly in its range. -/
theorem PageNumber.decode (number : PageNumber) (byte : UInt8) :
    ∃ value, decodePropertyValue env number.definition [byte] = .ok value ∧
      value.integer = if number.Admits byte then some (byte.toNat : Int) else none := by
  rw [definition,decodePropertyValue,decodeOptions,decodePropertyValue,decodeScalar_byte]
  by_cases hrange : inRange number.minimum number.maximum byte.toNat = true
  · rw [if_pos hrange,if_pos (show number.Admits byte from hrange)]
    exact ⟨_,rfl,by simp [Decoded.integer]⟩
  · rw [if_neg hrange,if_neg (show ¬ number.Admits byte from hrange)]
    exact decodeOptions_states env number.states byte

theorem byteSizes_states (states : List (List EnumValue)) :
    byteSizes (states.map fun enumValues => .scalar {size := 1, enumValues}) =
      some (List.replicate states.length 1) := by
  induction states with
  | nil => rfl
  | cons enumValues states ih =>
    rw [List.map_cons,byteSizes,ih]
    rfl

theorem PageNumber.place (number : PageNumber) :
    number.definition.place = .options (List.replicate (number.states.length+1) 1) := by
  rw [place_of_not_array rfl,definition,fixedSizeOptions,byteSizes,byteSizes_states]
  rfl

theorem PageNumber.firstCut (number : PageNumber) (places : List Place) (byte : UInt8) (data : Bytes) :
    Cutting.firstCut (number.definition.place :: places) (byte :: data) =
      (Cutting.firstCut places data).map ([byte] :: ·) := by
  have hone : ∀ width ∈ List.replicate (number.states.length+1) 1, width = 1 := fun width hwidth =>
    List.eq_of_mem_replicate hwidth
  rw [number.place,firstCut_constant (by simp) hone,if_pos (by simp)]
  rfl

namespace PagedList
variable (list : PagedList)

/-- The bytes after the header are a whole number of items. -/
abbrev Fits (body : Bytes) : Prop :=
  Whole list.items.value.itemSize list.items.value.minItems list.items.value.maxItems body.length

theorem firstCut_fields (start count : UInt8) (body : Bytes) :
    firstCut (layout list.fields) (start :: count :: body) =
      if list.Fits body then some [[start],[count],body] else none := by
  have hlayout : layout list.fields = [list.start.value.definition.place,list.count.value.definition.place,
    .rest list.items.value.itemSize list.items.value.minItems list.items.value.maxItems] := rfl
  rw [hlayout,PageNumber.firstCut,PageNumber.firstCut,Cutting.firstCut]
  split <;> rfl

/-- An EDT has a header. -/
theorem exists_header {edt : Bytes} (h : firstCut (layout list.fields) edt ≠ none) :
    ∃ start count body, edt = start :: count :: body := by
  have hone : ∀ (number : PageNumber) (places : List Place),
      Cutting.firstCut (number.definition.place :: places) ([] : Bytes) = none := by
    intro number places
    rw [number.place,firstCut_constant (by simp) fun width hwidth => List.eq_of_mem_replicate hwidth]
    rfl
  have hlayout : layout list.fields = [list.start.value.definition.place,list.count.value.definition.place,
    .rest list.items.value.itemSize list.items.value.minItems list.items.value.maxItems] := rfl
  rw [hlayout] at h
  rcases edt with _ | ⟨start,_ | ⟨count,body⟩⟩
  · exact absurd (hone _ _) h
  · rw [PageNumber.firstCut,hone] at h
    exact absurd rfl h
  · exact ⟨start,count,body,rfl⟩

/-- The bytes of the items, one after the other, follow the header. -/
theorem itemSlices_get (start count : UInt8) (body : Bytes) {i n : Nat}
    (h : i < (itemSlices body list.items.value.itemSize n).length) :
    (itemSlices body list.items.value.itemSize n)[i] = list.itemBytes (start :: count :: body) i := by
  have hstop : 2+(i+1)*list.items.value.itemSize-(2+i*list.items.value.itemSize) =
      (i+1)*list.items.value.itemSize-i*list.items.value.itemSize := by omega
  have hdrop : (start :: count :: body).drop (2+i*list.items.value.itemSize) =
      body.drop (i*list.items.value.itemSize) := by
    rw [Nat.add_comm,List.drop_succ_cons,List.drop_succ_cons]
  simp only [itemSlices,List.getElem_map,List.getElem_range,itemBytes,slice,hdrop,hstop]

variable {list} {env} {start count : UInt8} {body : Bytes} {items : List Decoded}

/-- The items that decode are the ones at their places. -/
theorem decodeItems_eq_ok (start count : UInt8) : list.decodeItems env body = .ok items ↔
    items.length = body.length/list.items.value.itemSize ∧
      ∀ (i : Nat) (h : i < items.length), decodePropertyValue env list.items.value.item
        (list.itemBytes (start :: count :: body) i) = .ok items[i] := by
  have hlength : (itemSlices body list.items.value.itemSize (body.length/list.items.value.itemSize)).length =
      body.length/list.items.value.itemSize := by simp [itemSlices]
  rw [decodeItems,Fallible.mapM_eq_ok,List.forall₂_iff_get]
  constructor
  · rintro ⟨hcount,hall⟩
    refine ⟨hcount.symm.trans hlength,fun i hi => ?_⟩
    rw [← list.itemSlices_get start count body (hcount ▸ hi)]
    exact hall i (hcount ▸ hi) hi
  · rintro ⟨hcount,hall⟩
    refine ⟨hlength.trans hcount.symm,fun i hi hi' => ?_⟩
    rw [List.get_eq_getElem,itemSlices_get list start count body]
    exact hall i hi'

theorem exists_of_decodeItems {failure : Failure} (h : list.decodeItems env body = .error failure) :
    ∃ i, decodePropertyValue env list.items.value.item (list.itemBytes (start :: count :: body) i) =
      .error failure := by
  obtain ⟨slice,hmem,hslice⟩ := Fallible.exists_of_mapM_eq_error h
  obtain ⟨i,hi,rfl⟩ := List.getElem_of_mem hmem
  exact ⟨i,by rw [← hslice,list.itemSlices_get start count]⟩

theorem decodeItems_total (h : ∀ leaf ∈ list.items.value.item.leaves, leaf.Resolved env) (body : Bytes) :
    ∃ items, list.decodeItems env body = .ok items :=
  Fallible.exists_mapM_eq_ok_of_total _ fun slice _ => decode_total list.items.value.item h slice

/-- The page that the decoded fields make. -/
theorem decodeCollection_eq (resultEpc : Epc) {entries : List (String × Decoded)}
    (h : Corresponds env (list.fields.zip [[start],[count],body]) entries)
    (hitems : decodePropertyValue env list.itemsField.value body = .ok (.tuple items)) :
    decodeCollection (list.binding resultEpc) (.dict entries) =
      if list.start.value.Admits start ∧ list.count.value.Admits count ∧ count.toNat = items.length then
        some ⟨start.toNat,count.toNat,items⟩
      else none := by
  obtain ⟨hstart,hcount,hkeys⟩ : list.start.key ≠ list.count.key ∧ list.start.key ≠ list.items.key ∧
    list.count.key ≠ list.items.key := by simpa [and_assoc] using list.distinct
  obtain ⟨started,hstarted,hgetstart⟩ := h.values [] list.startField [start] _ rfl (by
    simp [countField,itemsField,startField,hstart.symm,hcount.symm])
  obtain ⟨counted,hcounted,hgetcount⟩ := h.values [(list.startField,[start])] list.countField [count] _ rfl (by
    simp [countField,itemsField,hkeys.symm])
  obtain ⟨read,hread,hgetitems⟩ := h.values [(list.startField,[start]),(list.countField,[count])]
    list.itemsField body [] rfl nofun
  cases hitems.symm.trans hread
  obtain ⟨_,hs,hstartnumber⟩ := PageNumber.decode env list.start.value start
  cases hs.symm.trans hstarted
  obtain ⟨_,hc,hcountnumber⟩ := PageNumber.decode env list.count.value count
  cases hc.symm.trans hcounted
  have hpath : ∀ key value, Dict.get key entries = some value → getPath (.dict entries) [key] = value := by
    intro key value hget
    rw [getPath,hget,Option.getD_some,getPath]
  have hitemspath : getPath (.dict entries) (list.binding resultEpc).itemsPath = .tuple items :=
    hpath _ _ hgetitems
  have hstartpath : getPath (.dict entries) (list.binding resultEpc).startPath = started := hpath _ _ hgetstart
  have hcountpath : getPath (.dict entries) (list.binding resultEpc).pageCountPath = counted :=
    hpath _ _ hgetcount
  unfold decodeCollection
  rw [hitemspath,hstartpath,hcountpath]
  simp only [hstartnumber,hcountnumber]
  by_cases hs : list.start.value.Admits start <;> by_cases hc : list.count.value.Admits count <;>
    by_cases hn : count.toNat = items.length <;> simp [hs,hc,hn]

theorem fits_of_count {n : Nat} (hlength : body.length = n*list.items.value.itemSize)
    (hleast : ∀ m ∈ list.items.value.minItems, m ≤ n) (hgreatest : ∀ m ∈ list.items.value.maxItems, n ≤ m) :
    list.Fits body ∧ body.length/list.items.value.itemSize = n := by
  have hcount : body.length/list.items.value.itemSize = n := by
    rw [hlength,Nat.mul_div_cancel _ list.items.value.positive]
  refine ⟨⟨list.items.value.positive,?_,?_,?_⟩,hcount⟩
  · rw [hlength]
    exact Nat.dvd_mul_left _ n
  · rwa [hcount]
  · rwa [hcount]

theorem Declared.fits {edt : Bytes} (h : list.Declared edt) :
    ∃ start count body, edt = start :: count :: body ∧ list.Fits body := by
  obtain ⟨start,count,body,he,_,_,hlength,hleast,hgreatest⟩ := h
  exact ⟨start,count,body,he,(fits_of_count hlength hleast hgreatest).1⟩

theorem Page.declared {edt : Bytes} {page : CollectionPage} (h : list.Page env edt page) : list.Declared edt := by
  obtain ⟨⟨start,count,body,rfl,hstart,hcount,_,hpage⟩,hcounted,hlength,hleast,hgreatest,_⟩ := h
  have hitems : count.toNat = page.items.length := Int.ofNat_inj.mp (hpage.symm.trans hcounted)
  rw [← hitems,List.length_cons,List.length_cons,Nat.add_assoc,Nat.add_comm] at hlength
  rw [← hitems] at hleast hgreatest
  exact ⟨start,count,body,rfl,hstart,hcount,Nat.add_left_cancel hlength,hleast,hgreatest⟩

/-- The items of a page are all that follow its header. -/
theorem page_iff (hfits : list.Fits body) {page : CollectionPage} :
    list.Page env (start :: count :: body) page ↔
      list.decodeItems env body = .ok page.items ∧
      (list.start.value.Admits start ∧ list.count.value.Admits count ∧ count.toNat = page.items.length) ∧
      page.start = start.toNat ∧ page.count = count.toNat := by
  rw [decodeItems_eq_ok start count]
  constructor
  · rintro ⟨⟨_,_,_,he,hstart,hcount,hfirst,hpage⟩,hcounted,hlength,_,_,hdecoded⟩
    cases he
    have hitems : body.length/list.items.value.itemSize = page.items.length := by
      apply Nat.div_eq_of_eq_mul_left list.items.value.positive
      rw [List.length_cons,List.length_cons] at hlength
      omega
    exact ⟨⟨hitems.symm,hdecoded⟩,⟨hstart,hcount,Int.ofNat_inj.mp (hpage.symm.trans hcounted)⟩,hfirst,hpage⟩
  · rintro ⟨⟨hitems,hdecoded⟩,⟨hstart,hcount,hcounted⟩,hfirst,hpage⟩
    refine ⟨⟨start,count,body,rfl,hstart,hcount,hfirst,hpage⟩,by rw [hpage,hcounted],?_,?_,?_,hdecoded⟩
    · rw [hitems,Nat.div_mul_cancel hfits.dvd,List.length_cons,List.length_cons]
      omega
    · exact hitems ▸ hfits.least
    · exact hitems ▸ hfits.greatest

/-- Only the items can fail to be read. -/
theorem items_of_readFields_error {failure : Failure}
    (h : readFields env (list.fields.zip [[start],[count],body]) = .error failure) :
    decodePropertyValue env list.itemsField.value body = .error failure := by
  obtain ⟨field,slice,hmem,hfails⟩ := readFields_error h
  have hnumber : ∀ (number : PageNumber) (byte : UInt8),
      decodePropertyValue env number.definition [byte] ≠ .error failure := by
    intro number byte he
    obtain ⟨_,hok,_⟩ := PageNumber.decode env number byte
    cases hok.symm.trans he
  simp only [fields,List.zip_cons_cons,List.zip_nil_right,List.mem_cons,List.not_mem_nil,or_false] at hmem
  rcases hmem with he | he | he
  · cases he
    exact absurd hfails (hnumber _ _)
  · cases he
    exact absurd hfails (hnumber _ _)
  · cases he
    exact hfails

theorem readFields_cases (env : Environment) (start count : UInt8) (hfits : list.Fits body) :
    let decoded := list.decodeItems env body
    let read := readFields env (list.fields.zip [[start],[count],body])
    (∃ items entries, decoded = .ok items ∧ read = .ok entries ∧
      decodePropertyValue env list.itemsField.value body = .ok (.tuple items)) ∨
    ∃ failure, decoded = .error failure ∧ read = .error failure := by
  intro decoded read
  have hitems : decodePropertyValue env list.itemsField.value body = decoded.map .tuple := by
    rw [itemsField,decode_array,if_pos hfits]
    rfl
  cases hread : read with
  | ok entries =>
    obtain ⟨value,hvalue,_⟩ := (readFields_corresponds hread).values
      [(list.startField,[start]),(list.countField,[count])] list.itemsField body [] rfl nofun
    cases hdecoded : decoded with
    | error failure =>
      rw [hitems,hdecoded] at hvalue
      cases hvalue
    | ok items => exact Or.inl ⟨items,entries,rfl,rfl,by rw [hitems,hdecoded]; rfl⟩
  | error failure =>
    have hfails := items_of_readFields_error hread
    rw [hitems] at hfails
    cases hdecoded : decoded with
    | ok items =>
      rw [hdecoded] at hfails
      cases hfails
    | error failure' =>
      rw [hdecoded] at hfails
      cases hfails
      exact Or.inr ⟨failure,rfl,rfl⟩

end PagedList

/-! ### Pages -/

section Page
variable {definitions : Definitions} {list : PagedList} {classCode : Nat} {resultEpc : Epc}
  (hvalue : definitions.getStructuredValue classCode resultEpc = some list.definition)
  (hbinding : definitions.getCollectionBinding classCode resultEpc = some (list.binding resultEpc))
  (arithmetic : Arithmetic) (context : Option Context)
include hvalue hbinding

/-- After a header, a whole number of items makes a page if the header counts them. -/
theorem decodeCollectionPage_eq {start count : UInt8} {body : Bytes} (hfits : list.Fits body) :
    definitions.decodeCollectionPage arithmetic classCode resultEpc (start :: count :: body) context =
      (list.decodeItems (definitions.environment arithmetic context classCode) body).map fun items =>
        if list.start.value.Admits start ∧ list.count.value.Admits count ∧ count.toNat = items.length then
          some ⟨start.toNat,count.toNat,items⟩
        else none := by
  have hdecode : decodePropertyValue (definitions.environment arithmetic context classCode) list.definition
      (start :: count :: body) = (readFields (definitions.environment arithmetic context classCode)
        (list.fields.zip [[start],[count],body])).map .dict := by
    rw [PagedList.definition,decode_object,list.firstCut_fields,if_pos hfits,Option.elim_some]
  unfold Definitions.decodeCollectionPage
  simp only [hvalue,hbinding,hdecode]
  rcases PagedList.readFields_cases (definitions.environment arithmetic context classCode) start count hfits with
    ⟨items,entries,hitems,hread,htuple⟩ | ⟨failure,hitems,hread⟩
  · rw [hitems,hread]
    exact congrArg Except.ok (PagedList.decodeCollection_eq resultEpc (readFields_corresponds hread) htuple)
  · rw [hitems,hread]
    rfl

theorem decodeCollectionPage_unfit {edt : Bytes}
    (h : ∀ start count body, edt = start :: count :: body → ¬ list.Fits body) :
    definitions.decodeCollectionPage arithmetic classCode resultEpc edt context = .ok none := by
  have hcut : firstCut (layout list.fields) edt = none := by
    by_contra hcut
    obtain ⟨start,count,body,rfl⟩ := list.exists_header hcut
    rw [list.firstCut_fields,if_neg (h start count body rfl)] at hcut
    exact hcut rfl
  unfold Definitions.decodeCollectionPage
  simp only [hvalue,hbinding,PagedList.definition,decode_object,hcut]
  rfl

theorem decodeCollectionPage_eq_some {start count : UInt8} {body : Bytes} (hfits : list.Fits body)
    (page : CollectionPage) :
    definitions.decodeCollectionPage arithmetic classCode resultEpc (start :: count :: body) context =
      .ok (some page) ↔
      list.Page (definitions.environment arithmetic context classCode) (start :: count :: body) page := by
  rw [PagedList.page_iff hfits,decodeCollectionPage_eq hvalue hbinding arithmetic context hfits]
  cases list.decodeItems (definitions.environment arithmetic context classCode) body with
  | error failure => exact ⟨nofun,fun h => nomatch h.1⟩
  | ok items =>
    constructor
    · intro h
      obtain ⟨hcond,he⟩ := Option.ite_none_right_eq_some.mp (Except.ok.inj h)
      cases he
      exact ⟨rfl,hcond,rfl,rfl⟩
    · rintro ⟨hitems,hcond,hstart,hcount⟩
      obtain ⟨pageStart,pageCount,pageItems⟩ := page
      dsimp only at hitems hcond hstart hcount
      subst hstart hcount
      cases hitems
      exact congrArg Except.ok (if_pos hcond)

theorem decodeCollectionPage_error {start count : UInt8} {body : Bytes} (hfits : list.Fits body)
    {failure : Failure}
    (h : definitions.decodeCollectionPage arithmetic classCode resultEpc (start :: count :: body) context =
      .error failure) :
    ∃ i, decodePropertyValue (definitions.environment arithmetic context classCode) list.items.value.item
      (list.itemBytes (start :: count :: body) i) = .error failure := by
  rw [decodeCollectionPage_eq hvalue hbinding arithmetic context hfits] at h
  cases hitems : list.decodeItems (definitions.environment arithmetic context classCode) body with
  | error failure' =>
    rw [hitems] at h
    cases h
    exact PagedList.exists_of_decodeItems hitems
  | ok items =>
    rw [hitems] at h
    cases h

/-- Where no item fails, the header decides whether there is a page. -/
theorem decodeCollectionPage_declared {start count : UInt8} {body : Bytes} (hfits : list.Fits body)
    (hresolved : ∀ leaf ∈ list.items.value.item.leaves,
      leaf.Resolved (definitions.environment arithmetic context classCode)) :
    (list.Declared (start :: count :: body) → ∃ page,
      definitions.decodeCollectionPage arithmetic classCode resultEpc (start :: count :: body) context =
        .ok (some page)) ∧
    (¬ list.Declared (start :: count :: body) →
      definitions.decodeCollectionPage arithmetic classCode resultEpc (start :: count :: body) context =
        .ok none) := by
  obtain ⟨items,hitems⟩ := PagedList.decodeItems_total hresolved body
  obtain ⟨hlength,_⟩ := (PagedList.decodeItems_eq_ok start count).mp hitems
  rw [decodeCollectionPage_eq hvalue hbinding arithmetic context hfits,hitems]
  constructor
  · rintro ⟨_,_,_,he,hstart,hcount,hbody,hleast,hgreatest⟩
    cases he
    have hcounted := (PagedList.fits_of_count hbody hleast hgreatest).2.symm.trans hlength.symm
    exact ⟨_,congrArg Except.ok (if_pos ⟨hstart,hcount,hcounted⟩)⟩
  · intro hundeclared
    refine congrArg Except.ok (if_neg ?_)
    rintro ⟨hstart,hcount,hcounted⟩
    have hitems : count.toNat = body.length/list.items.value.itemSize := hcounted.trans hlength
    refine hundeclared ⟨start,count,body,rfl,hstart,hcount,?_,hitems ▸ hfits.least,hitems ▸ hfits.greatest⟩
    rw [hitems,Nat.div_mul_cancel hfits.dvd]

/-- A page is what its header declares, and every header that declares what follows it gives a page. -/
theorem decodeCollectionPage_exact (edt : Bytes) :
    let env := definitions.environment arithmetic context classCode
    let result := definitions.decodeCollectionPage arithmetic classCode resultEpc edt context
    (∀ page, result = .ok (some page) ↔ list.Page env edt page) ∧
    (∀ failure, result = .error failure → ∃ i,
      decodePropertyValue env list.items.value.item (list.itemBytes edt i) = .error failure) ∧
    ((∀ leaf ∈ list.items.value.item.leaves, leaf.Resolved env) →
      (list.Declared edt → ∃ page, result = .ok (some page)) ∧ (¬ list.Declared edt → result = .ok none)) := by
  intro env result
  by_cases hfits : ∃ start count body, edt = start :: count :: body ∧ list.Fits body
  · obtain ⟨start,count,body,rfl,hfits⟩ := hfits
    refine ⟨fun page => ?_,fun failure hfails => ?_,fun hresolved => ?_⟩
    · exact decodeCollectionPage_eq_some hvalue hbinding arithmetic context hfits page
    · exact decodeCollectionPage_error hvalue hbinding arithmetic context hfits hfails
    · exact decodeCollectionPage_declared hvalue hbinding arithmetic context hfits hresolved
  · have hnone : result = .ok none := decodeCollectionPage_unfit hvalue hbinding arithmetic context
      fun start count body he hbody => hfits ⟨start,count,body,he,hbody⟩
    have hundeclared : ¬ list.Declared edt := fun h => hfits h.fits
    rw [hnone]
    refine ⟨fun page => ⟨nofun,fun h => absurd h.declared hundeclared⟩,nofun,fun _ => ⟨fun h => ?_,fun _ => rfl⟩⟩
    exact absurd h hundeclared

end Page

/-! ### Class 0x0287 -/

/-- A number in four or two bytes, or else no data. -/
def measurement (number : ScalarDefinition) (noData : Nat) : PropertyValueDefinition :=
  .oneOf [.scalar number,
    .scalar {size := number.size, enumValues := [⟨noData,"noData","Not measured","未計測"⟩]}]

def energyNumber : ScalarDefinition where
  size := 4
  format := some "uint32"
  unit := some "kWh"
  minimum := some 0
  maximum := some 99999999
  coefficientEpcs := [0xC2]

def powerNumber : ScalarDefinition where
  size := 4
  format := some "int32"
  unit := some "W"
  minimum := some (-2147483647)
  maximum := some 2147483645

def currentNumber : ScalarDefinition where
  size := 2
  format := some "int16"
  unit := some "A"
  minimum := some (-32767)
  maximum := some 32765
  multipleOf := 1/10

def electricEnergy : PropertyValueDefinition := measurement energyNumber 0xFFFFFFFE

def electricPower : PropertyValueDefinition := measurement powerNumber 0x7FFFFFFE

def phaseCurrent : PropertyValueDefinition := measurement currentNumber 0x7FFE

def bothPhases : PropertyValueDefinition := .object [⟨"rPhase",phaseCurrent,"",""⟩,⟨"tPhase",phaseCurrent,"",""⟩]

def bothDirections : PropertyValueDefinition :=
  .object [⟨"normalDirectionElectricEnergy",electricEnergy,"",""⟩,
    ⟨"reverseDirectionElectricEnergy",electricEnergy,"",""⟩]

def channelList (itemsKey : String) (items : PageItems) (greatest : ℚ)
    (h : ["startChannel","range",itemsKey].Nodup) : PagedList where
  start := ⟨"startChannel",⟨some 1,some 252,[[⟨0xFD,"undefined","Undefined","不明"⟩]]⟩,"",""⟩
  count := ⟨"range",⟨some 1,some greatest,[[⟨0xFD,"undefined","Undefined","不明"⟩]]⟩,"",""⟩
  items := ⟨itemsKey,items,"",""⟩
  distinct := h

/-- The paged lists of class 0x0287. -/
def meteringLists : List (Epc × PagedList) :=
  let energy := channelList "electricEnergy" ⟨electricEnergy,4,by decide,none,some 60⟩ 60 (by decide)
  let current := channelList "instantaneousCurrent" ⟨bothPhases,4,by decide,none,some 60⟩ 60 (by decide)
  let power := channelList "instantaneousElectricPower" ⟨electricPower,4,by decide,none,some 60⟩ 60 (by decide)
  let duplex := channelList "electricEnergy" ⟨bothDirections,8,by decide,none,some 30⟩ 30 (by decide)
  [(0xB3,energy),(0xB5,current),(0xB7,power),(0xBA,duplex),(0xBC,current),(0xBE,power)]

/-- EPC 0xC2, the unit of the amounts of energy. -/
def energyUnit : EntityDefinition where
  id := "class_0287_epc_c2"
  epc := 0xC2
  nameEn := "Unit for cumulative amounts of electric energy"
  nameJa := "積算電力量単位"
  readable := true
  writable := false
  numericValues := some [⟨0,1⟩,⟨1,1/10⟩,⟨2,1/100⟩,⟨3,1/1000⟩,⟨4,1/10000⟩,⟨10,10⟩,⟨11,100⟩,⟨12,1000⟩,⟨13,10000⟩]

/-- What `REGISTRY` has for the paged lists of class 0x0287. -/
def meteringDefinitions : Definitions where
  entities classCode := if classCode = 0x0287 then [energyUnit] else []
  structuredValues classCode epc :=
    if classCode = 0x0287 then (meteringLists.lookup epc).map PagedList.definition else none
  collectionBindings classCode :=
    if classCode = 0x0287 then meteringLists.map fun entry => entry.2.binding entry.1 else []

/-- The only coefficient is the unit, which is read without failing. -/
theorem energyUnit_resolved (arithmetic : Arithmetic) (context : Option Context) {definition : ScalarDefinition}
    (h : definition.coefficientEpcs = [] ∨ definition.coefficientEpcs = [0xC2]) :
    definition.Resolved (meteringDefinitions.environment arithmetic context 0x0287) := by
  intro classCode hclass epc hepc
  cases hclass
  rcases h with h | h
  · rw [h] at hepc
    cases hepc
  · rw [h,List.mem_singleton] at hepc
    subst hepc
    refine ⟨_,rfl,fun edt => ?_⟩
    exact ⟨_,by rw [PropertyCodec.decode]⟩

theorem meteringLists_resolved (arithmetic : Arithmetic) (context : Option Context) {entry : Epc × PagedList}
    (h : entry ∈ meteringLists) : ∀ leaf ∈ entry.2.items.value.item.leaves,
      leaf.Resolved (meteringDefinitions.environment arithmetic context 0x0287) := by
  have hepcs : ∀ entry ∈ meteringLists, ∀ leaf ∈ entry.2.items.value.item.leaves,
      leaf.coefficientEpcs = [] ∨ leaf.coefficientEpcs = [0xC2] := by
    decide
  exact fun leaf hleaf => energyUnit_resolved arithmetic context (hepcs entry h leaf hleaf)

theorem meteringLists_registered {entry : Epc × PagedList} (h : entry ∈ meteringLists) :
    meteringDefinitions.getStructuredValue 0x0287 entry.1 = some entry.2.definition ∧
    meteringDefinitions.getCollectionBinding 0x0287 entry.1 = some (entry.2.binding entry.1) := by
  simp only [meteringLists,List.mem_cons,List.not_mem_nil,or_false] at h
  rcases h with rfl | rfl | rfl | rfl | rfl | rfl <;> exact ⟨rfl,rfl⟩

/-- Amounts of energy are in tenths of a kWh. -/
def tenths : Context := fun epc => if epc = 0xC2 then some [1] else none

theorem decode_electricEnergy {env : Environment} {edt : Bytes} {value : ℚ}
    (h : decodeScalar env energyNumber edt = .ok (.number value)) :
    decodePropertyValue env electricEnergy edt = .ok (.value (.number value)) := by
  rw [electricEnergy,measurement,decodePropertyValue,decodeOptions,decodePropertyValue,h]
  rfl

/-- Two channels are a page of two, and none of three. -/
theorem decodeCollectionPage_energy : ∃ entry ∈ meteringLists,
    meteringDefinitions.decodeCollectionPage .exact 0x0287 entry.1 [1,2,0,0,0,5,0,0,0,70] (some tenths) =
      .ok (some ⟨1,2,[.value (.number (1/2)),.value (.number 7)]⟩) ∧
    meteringDefinitions.decodeCollectionPage .exact 0x0287 entry.1 [1,3,0,0,0,5,0,0,0,70] (some tenths) =
      .ok none := by
  obtain ⟨entry,hentry⟩ : ∃ entry, meteringLists.head? = some entry := ⟨_,rfl⟩
  have hmem := List.mem_of_head? hentry
  obtain ⟨hvalue,hbinding⟩ := meteringLists_registered hmem
  obtain ⟨hpage,_⟩ := decodeCollectionPage_exact hvalue hbinding .exact (some tenths) [1,2,0,0,0,5,0,0,0,70]
  obtain ⟨_,_,hother⟩ := decodeCollectionPage_exact hvalue hbinding .exact (some tenths) [1,3,0,0,0,5,0,0,0,70]
  cases hentry
  refine ⟨_,hmem,(hpage _).mpr ?_,(hother (meteringLists_resolved _ _ hmem)).2 ?_⟩
  · refine ⟨⟨1,2,_,rfl,by decide,by decide,rfl,rfl⟩,rfl,rfl,nofun,by decide,?_⟩
    intro i hi
    match i,hi with
    | 0,_ => exact decode_electricEnergy (by decide +kernel)
    | 1,_ => exact decode_electricEnergy (by decide +kernel)
  · rintro ⟨_,_,_,heq,_,_,hlength,_⟩
    cases heq
    cases hlength

end Pyhems.Codec

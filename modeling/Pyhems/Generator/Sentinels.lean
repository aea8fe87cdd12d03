import Pyhems.Generator.RoundTrip
import Pyhems.Generator.Widths

/-! Numbers, raw bytes and times beside states that stand for special values. The options of a oneOf are
tried in their order. -/
namespace Pyhems.Generator
open Library Codec Fallible
open PropertyValueDefinition (byteSize)
open Protocol (Bytes fromBytes)

/-- The entries of a specification that are not ranges. -/
def Spec.states (leaf : Spec) : List EnumItem := (leaf.enum.getD []).filter fun item => !isRange item.edt

/-- The key that a state declares for an EDT. -/
def Spec.sentinel (leaf : Spec) (edt : Nat) : Option String :=
  (leaf.states.find? fun item => decide (hexInt item.edt = .ok edt)).bind EnumItem.name

/-- A oneOf of scalars of one width, whose states have an exact EDT. -/
structure Alternatives (definitions : Definitions) (depth : Nat) (spec : Spec) (leaves : List Spec)
    (values : List PropertyValueDefinition) (width : Nat) : Prop where
  resolved : ∃ options, spec.oneOf = some options ∧ List.Forall₂ (fun option leaf =>
    option.oneOf = none ∧ resolveRef option definitions = .ok leaf ∧ leaf.isLeaf) options leaves
  parsed : parseValueSpec definitions depth spec = .ok (.oneOf values)
  widths : ∀ value ∈ values, byteSize value = some width
  states : ∀ leaf ∈ leaves, leaf.type = some .state → leaf.states ≠ []

variable {definitions : Definitions} {depth width : Nat} {spec leaf : Spec} {leaves : List Spec}
  {values : List PropertyValueDefinition} {scalar : ScalarDefinition} {env : Environment} {chunk : Bytes}

theorem Alternatives.scalars (h : Alternatives definitions depth spec leaves values width) :
    List.Forall₂ (fun leaf value => ∃ scalar, value = .scalar scalar ∧ parseLeaf leaf = .ok scalar)
      leaves values := by
  obtain ⟨options,hone,hleaves⟩ := h.resolved
  obtain ⟨d,_,hstep⟩ := parsedTo h.parsed
  cases hstep with
  | oneOf hone' hvalues =>
    cases hone.symm.trans hone'
    clear hone hone' h
    induction hleaves generalizing values with
    | nil =>
      cases hvalues
      exact .nil
    | cons hleaf _ ih =>
      obtain ⟨value,values',hvalue,hvalues',rfl⟩ := List.forall₂_cons_left_iff.mp hvalues
      refine .cons ?_ (ih hvalues')
      obtain ⟨hone,hresolved,hleaf⟩ := hleaf
      obtain ⟨d',_,hstep⟩ := parsedTo hvalue
      cases hstep with
      | scalar _ hresolved' _ hread =>
        cases hresolved.symm.trans hresolved'
        exact ⟨_,rfl,hread⟩
      | oneOf hone' => cases hone.symm.trans hone'
      | array _ hresolved' htype =>
        cases hresolved.symm.trans hresolved'
        exact absurd htype hleaf.1
      | object _ hresolved' htype =>
        cases hresolved.symm.trans hresolved'
        exact absurd htype hleaf.2

theorem parseState_entry {item : EnumItem} {result : Option EnumValue} (h : parseState item = .ok result) :
    Entry item result := by
  unfold parseState at h
  split at h
  · next hrange =>
    cases h
    exact Or.inl ⟨hrange,rfl⟩
  · next hrange =>
    obtain ⟨descriptions,_,h⟩ := bind_eq_ok.mp h
    obtain ⟨edt,hedt,h⟩ := bind_eq_ok.mp h
    obtain ⟨name,hname,h⟩ := bind_eq_ok.mp h
    cases h
    exact Or.inr ⟨Bool.eq_false_of_not_eq_true hrange,_,rfl,hedt,required_eq_ok.mp hname⟩

theorem stateKey_entered {items : List EnumItem} {states : List EnumValue}
    (h : List.Forall₂ Entered items states) (edt : Nat) :
    stateKey states edt =
      ((items.find? fun item => decide (hexInt item.edt = .ok edt)).bind EnumItem.name).elim .none .text := by
  induction h with
  | nil => rfl
  | @cons item state items states hhead _ ih =>
    rw [stateKey,List.find?_cons,List.find?_cons,hhead.1]
    by_cases he : state.edt = edt
    · simp [he,hhead.2]
    · simpa [he,stateKey] using ih

/-- A state decodes exactly the EDTs that it declares. -/
theorem decode_state (hparse : parseLeaf leaf = .ok scalar) (htype : leaf.type = some .state)
    (hstates : leaf.states ≠ []) (hlength : chunk.length = scalar.size) :
    decodePropertyValue env (.scalar scalar) chunk =
      .ok (.value ((leaf.sentinel (fromBytes chunk)).elim .none .text)) := by
  rw [parseLeaf,htype] at hparse
  obtain ⟨size,_,hparse⟩ := bind_eq_ok.mp hparse
  obtain ⟨states,hvalues,he⟩ := bind_eq_ok.mp hparse
  obtain ⟨results,hresults,he'⟩ := bind_eq_ok.mp hvalues
  cases he
  cases he'
  have hentered := entered_items ((mapM_eq_ok.mp hresults).imp fun _ _ => parseState_entry)
  have hne : results.filterMap id ≠ [] := by
    intro hnil
    rw [hnil] at hentered
    exact hstates (List.forall₂_nil_right_iff.mp hentered)
  rw [decodePropertyValue,decodeScalar,if_neg fun hne => hne hlength]
  simp only [ne_eq,hne,not_false_eq_true,if_true,stateKey_entered hentered]
  rfl

/-! ### The first option -/

theorem decodeOptions_none {options : List PropertyValueDefinition}
    (h : ∀ option ∈ options, decodePropertyValue env option chunk = .ok (.value .none)) :
    decodeOptions env options chunk = .ok (.value .none) := by
  induction options with
  | nil => rfl
  | cons option options ih =>
    obtain ⟨hhead,hrest⟩ := List.forall_mem_cons.mp h
    rw [decodeOptions,hhead]
    exact ih hrest

theorem decodeOptions_first {before after : List PropertyValueDefinition} {option : PropertyValueDefinition}
    {result : Decoded}
    (hbefore : ∀ earlier ∈ before, decodePropertyValue env earlier chunk = .ok (.value .none))
    (h : decodePropertyValue env option chunk = .ok result) (hfound : result.found = true) :
    decodeOptions env (before ++ option :: after) chunk = .ok result := by
  induction before with
  | nil =>
    rw [List.nil_append,decodeOptions,h]
    simp [bind,Except.bind,hfound,pure,Except.pure]
  | cons earlier before ih =>
    obtain ⟨hhead,hrest⟩ := List.forall_mem_cons.mp hbefore
    rw [List.cons_append,decodeOptions,hhead]
    exact ih hrest

/-- What a oneOf of scalars decodes to. `before` are the options in front of an option. -/
structure InOrder (env : Environment) (leaves : List Spec) (values : List PropertyValueDefinition)
    (chunk : Bytes) : Prop where
  /-- The first option that accepts the EDT gives its value. -/
  first : ∀ before leaf value after result, leaves.zip values = before ++ (leaf,value) :: after →
    decodePropertyValue env value chunk = .ok result → result.found = true →
    (∀ earlier ∈ before, decodePropertyValue env earlier.2 chunk = .ok (.value .none)) →
    decodePropertyValue env (.oneOf values) chunk = .ok result
  /-- A declared EDT gives the key, unless an earlier option accepts it. -/
  sentinel : ∀ before leaf value after key, leaves.zip values = before ++ (leaf,value) :: after →
    leaf.type = some .state → leaf.sentinel (fromBytes chunk) = some key →
    (∀ earlier ∈ before, decodePropertyValue env earlier.2 chunk = .ok (.value .none)) →
    decodePropertyValue env (.oneOf values) chunk = .ok (.value (.text key))
  /-- Any other EDT gives the value of the first option besides the states that accepts it. -/
  measurement : (∀ leaf ∈ leaves, leaf.type = some .state → leaf.sentinel (fromBytes chunk) = none) →
    (∀ before leaf value after result, leaves.zip values = before ++ (leaf,value) :: after →
      decodePropertyValue env value chunk = .ok result → result.found = true →
      (∀ earlier ∈ before, earlier.1.type ≠ some .state →
        decodePropertyValue env earlier.2 chunk = .ok (.value .none)) →
      decodePropertyValue env (.oneOf values) chunk = .ok result) ∧
    ((∀ option ∈ leaves.zip values, option.1.type ≠ some .state →
        decodePropertyValue env option.2 chunk = .ok (.value .none)) →
      decodePropertyValue env (.oneOf values) chunk = .ok (.value .none))

/-- The options decide in their order, states as all others. -/
theorem oneOf_inOrder (h : Alternatives definitions depth spec leaves values width) (env : Environment)
    (hlength : chunk.length = width) : InOrder env leaves values chunk := by
  have hscalars := h.scalars
  have hvalues : values = (leaves.zip values).map Prod.snd :=
    (List.map_snd_zip (Nat.le_of_eq hscalars.length_eq.symm)).symm
  have hstate : ∀ option ∈ leaves.zip values, option.1.type = some .state →
      decodePropertyValue env option.2 chunk =
        .ok (.value ((option.1.sentinel (fromBytes chunk)).elim .none .text)) := by
    rintro ⟨leaf,value⟩ hmem htype
    obtain ⟨hleaf,hvalue⟩ := List.of_mem_zip hmem
    obtain ⟨scalar,rfl,hparse⟩ := List.forall₂_zip hscalars hmem
    have hwidth := h.widths _ hvalue
    rw [byteSize] at hwidth
    cases hwidth
    exact decode_state hparse htype (h.states leaf hleaf htype) hlength
  have hfirst : ∀ before leaf value after result, leaves.zip values = before ++ (leaf,value) :: after →
      decodePropertyValue env value chunk = .ok result → result.found = true →
      (∀ earlier ∈ before, decodePropertyValue env earlier.2 chunk = .ok (.value .none)) →
      decodePropertyValue env (.oneOf values) chunk = .ok result := by
    intro before leaf value after result hsplit hdecode hfound hbefore
    rw [decodePropertyValue,hvalues,hsplit,List.map_append,List.map_cons]
    refine decodeOptions_first (fun earlier hearlier => ?_) hdecode hfound
    obtain ⟨pair,hpair,rfl⟩ := List.mem_map.mp hearlier
    exact hbefore pair hpair
  refine ⟨hfirst,?_,fun hnone => ?_⟩
  · intro before leaf value after key hsplit htype hkey hbefore
    have hdecode := hstate (leaf,value) (by rw [hsplit]; simp) htype
    rw [hkey] at hdecode
    exact hfirst before leaf value after _ hsplit hdecode rfl hbefore
  · -- No state accepts the EDT.
    have hskip : ∀ option ∈ leaves.zip values, option.1.type = some .state →
        decodePropertyValue env option.2 chunk = .ok (.value .none) := by
      intro option hmem htype
      rw [hstate option hmem htype,hnone option.1 (List.of_mem_zip hmem).1 htype]
      rfl
    constructor
    · intro before leaf value after result hsplit hdecode hfound hbefore
      refine hfirst before leaf value after result hsplit hdecode hfound fun earlier hearlier => ?_
      by_cases htype : earlier.1.type = some .state
      · exact hskip earlier (by rw [hsplit]; exact List.mem_append_left _ hearlier) htype
      · exact hbefore earlier hearlier htype
    · intro hall
      rw [decodePropertyValue]
      refine decodeOptions_none fun value hvalue => ?_
      rw [hvalues] at hvalue
      obtain ⟨option,hoption,rfl⟩ := List.mem_map.mp hvalue
      by_cases htype : option.1.type = some .state
      · exact hskip option hoption htype
      · exact hall option hoption htype

/-! ### A power or nothing -/

def powerSpec : Spec where
  type := some .number
  format := some "int32"
  unit := some "W"
  minimum := some (-999999999)
  maximum := some 999999999

def invalidSpec : Spec where
  type := some .state
  size := some 4
  enum := some [stateItem "0xFFFFFFFF" "invalid"]

def power : ScalarDefinition where
  size := 4
  format := some "int32"
  unit := some "W"
  minimum := some (-999999999)
  maximum := some 999999999

def noPower : ScalarDefinition where
  size := 4
  enumValues := [⟨0xFFFFFFFF,"invalid","invalid","invalid"⟩]

theorem power_alternatives (definitions : Definitions) :
    Alternatives definitions 2 {oneOf := some [powerSpec,invalidSpec]} [powerSpec,invalidSpec]
      [.scalar power,.scalar noPower] 4 where
  resolved := ⟨_,rfl,.cons ⟨rfl,rfl,nofun,nofun⟩ (.cons ⟨rfl,rfl,nofun,nofun⟩ .nil)⟩
  parsed := rfl
  widths := by
    intro value hvalue
    rcases List.mem_pair.mp hvalue with rfl | rfl <;> rfl
  states := by
    intro leaf hleaf htype
    rcases List.mem_pair.mp hleaf with rfl | rfl
    · cases htype
    · decide

theorem power_inOrder :
    InOrder emptyRegistry [powerSpec,invalidSpec] [.scalar power,.scalar noPower] [0x7F,0xFF,0xFF,0xFF] :=
  oneOf_inOrder (power_alternatives fun _ => none) emptyRegistry rfl

theorem decode_minus_one (env : Environment) :
    decodePropertyValue env (.scalar power) [0xFF,0xFF,0xFF,0xFF] = .ok (.value (.number (-1))) := by
  have hraw : PropertyCodec.raw "int32" (some (-999999999)) (some 999999999) 0 [0xFF,0xFF,0xFF,0xFF] =
      some (-1) := by decide +kernel
  have hformat : Option.filter (fun format => decide (format ≠ "")) power.format = some "int32" := rfl
  rw [decodePropertyValue,decodeScalar,if_neg (by decide),hformat]
  simp [power,coefficientCodecs,PropertyCodec.decode,hraw,bind,Except.bind,pure,Except.pure]

/-- An EDT that stands for no power is read as -1 W. -/
theorem sentinel_as_power :
    ¬ ∀ definitions depth spec leaves values width, Alternatives definitions depth spec leaves values width →
      ∀ env (chunk : Bytes), chunk.length = width → ∀ leaf ∈ leaves, leaf.type = some .state → ∀ key,
        leaf.sentinel (fromBytes chunk) = some key →
        decodePropertyValue env (.oneOf values) chunk = .ok (.value (.text key)) := by
  intro h
  have hkey := h (fun _ => none) 2 _ _ _ 4 (power_alternatives _) emptyRegistry [0xFF,0xFF,0xFF,0xFF] rfl
    invalidSpec (by simp) rfl "invalid" (by decide)
  have hfirst : decodePropertyValue emptyRegistry (.oneOf [.scalar power,.scalar noPower])
      [0xFF,0xFF,0xFF,0xFF] = .ok (.value (.number (-1))) := by
    rw [decodePropertyValue]
    exact @decodeOptions_first _ _ [] _ _ _ nofun (decode_minus_one emptyRegistry) rfl
  cases hkey.symm.trans hfirst

end Pyhems.Generator

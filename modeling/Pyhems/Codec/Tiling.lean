import Pyhems.Codec.Structured
import Pyhems.Library.Cutting
import Pyhems.Library.Fallible

/-! What an object decodes to. Its fields cut the EDT into slices, and the decoder reads the first cut
in the order of the options; it fails only where there is no cut. -/
namespace Pyhems.Codec
open Protocol Library Cutting
open PropertyValueDefinition (fixedSizeOptions)

/-- What a field takes of the EDT. A field of which an option has no fixed width takes nothing. -/
def PropertyValueDefinition.place : PropertyValueDefinition → Place
  | .array _ itemSize minItems maxItems => .rest itemSize minItems maxItems
  | value => .options (value.fixedSizeOptions.getD [])

def layout (fields : List (ObjectField PropertyValueDefinition)) : List Place :=
  fields.map fun field => field.value.place

variable (env : Environment) {fields : List (ObjectField PropertyValueDefinition)} {chunk : Bytes}
  {choice : List Nat} {slices : List Bytes} {entries : List (String × Decoded)}

/-- The dictionary of the fields, each decoded from its slice. The last field is read first. -/
def readFields : List (ObjectField PropertyValueDefinition × Bytes) → Except Failure (List (String × Decoded))
  | [] => .ok []
  | (field,slice) :: rest => do
    let remaining ← readFields rest
    pure (Dict.ofPairs ((field.key,← decodePropertyValue env field.value slice) :: remaining))

/-- An array decodes exactly if its bytes are a whole number of items. -/
theorem decode_array (item : PropertyValueDefinition) (itemSize : Nat) (minItems maxItems : Option Nat)
    (chunk : Bytes) :
    decodePropertyValue env (.array item itemSize minItems maxItems) chunk =
      if Whole itemSize minItems maxItems chunk.length then
        ((itemSlices chunk itemSize (chunk.length/itemSize)).mapM fun slice =>
          decodePropertyValue env item slice).map .tuple
      else .ok (.value .none) := by
  rw [decodePropertyValue]
  by_cases hsize : itemSize = 0 ∨ chunk.length % itemSize ≠ 0
  · have hpart : ¬ Whole itemSize minItems maxItems chunk.length := by
      intro h
      rcases hsize with hzero | hmod
      · exact absurd hzero h.pos.ne'
      · exact hmod (Nat.mod_eq_zero_of_dvd h.dvd)
    rw [if_pos hsize,if_neg hpart]
  · rw [if_neg hsize]
    rw [not_or,not_not] at hsize
    simp only
    split
    · next hmax =>
      obtain ⟨m,hm,hlt⟩ := Option.any_eq_true _ _ |>.mp hmax
      have hpart : ¬ Whole itemSize minItems maxItems chunk.length := fun h =>
        absurd (h.greatest m hm) (Nat.not_le.mpr (of_decide_eq_true hlt))
      rw [if_neg hpart]
    · next hmax =>
      split
      · next hmin =>
        obtain ⟨m,hm,hlt⟩ := Option.any_eq_true _ _ |>.mp hmin
        have hpart : ¬ Whole itemSize minItems maxItems chunk.length := fun h =>
          absurd (h.least m hm) (Nat.not_le.mpr (of_decide_eq_true hlt))
        rw [if_neg hpart]
      · next hmin =>
        have hwhole : Whole itemSize minItems maxItems chunk.length := by
          refine ⟨Nat.pos_of_ne_zero hsize.1,Nat.dvd_of_mod_eq_zero hsize.2,fun m hm => ?_,fun m hm => ?_⟩
          · apply Nat.not_lt.mp
            intro hlt
            exact hmin ((Option.any_eq_true _ _).mpr ⟨m,hm,decide_eq_true hlt⟩)
          · apply Nat.not_lt.mp
            intro hlt
            exact hmax ((Option.any_eq_true _ _).mpr ⟨m,hm,decide_eq_true hlt⟩)
        rw [if_pos hwhole]
        rfl

theorem readFields_cons (field : ObjectField PropertyValueDefinition) (slice : Bytes)
    (fields : List (ObjectField PropertyValueDefinition)) (slices : List Bytes) :
    readFields env ((field :: fields).zip (slice :: slices)) = (do
      let remaining ← readFields env (fields.zip slices)
      pure (Dict.ofPairs ((field.key,← decodePropertyValue env field.value slice) :: remaining))) := rfl

theorem place_of_not_array {value : PropertyValueDefinition} (h : value.isArray = false) :
    value.place = .options (value.fixedSizeOptions.getD []) := by
  cases value with
  | array item itemSize minItems maxItems => cases h
  | scalar _ | object _ | oneOf _ => rfl

/-- The fields are read off the first cut. -/
theorem decodeFields_eq (fields : List (ObjectField PropertyValueDefinition)) (chunk : Bytes) :
    decodeFields env fields chunk =
      (firstCut (layout fields) chunk).elim (.ok none) fun slices =>
        (readFields env (fields.zip slices)).map some := by
  induction fields generalizing chunk with
  | nil =>
    rw [decodeFields,layout,List.map_nil,firstCut]
    split <;> rfl
  | cons field fields ih =>
    obtain ⟨key,value,nameEn,nameJa⟩ := field
    rw [decodeFields,layout,List.map_cons]
    cases harray : value.isArray with
    | true =>
      cases value with
      | array item itemSize minItems maxItems =>
        cases fields with
        | nil =>
          simp only [List.isEmpty_nil,if_true,PropertyValueDefinition.place,List.map_nil,firstCut]
          split
          · next hwhole =>
            rw [Option.elim_some,readFields_cons]
            simp only [decode_array,if_pos hwhole]
            cases (itemSlices chunk itemSize (chunk.length/itemSize)).mapM fun slice =>
              decodePropertyValue env item slice <;> rfl
          · next hpart =>
            rw [decode_array,if_neg hpart]
            rfl
        | cons next fields => rfl
      | scalar _ | object _ | oneOf _ => cases harray
    | false =>
      rw [place_of_not_array harray]
      simp only [Bool.false_eq_true,if_false]
      cases value.fixedSizeOptions with
      | none => rfl
      | some sizes =>
        apply Fallible.findSomeM?_eq
        intro size _
        split
        · rw [ih,layout]
          cases firstCut (fields.map fun field => field.value.place) (chunk.drop size) with
          | none => rfl
          | some later =>
            simp only [Option.elim_some,Option.map_some]
            rw [readFields_cons]
            cases readFields env (fields.zip later) with
            | error failure => rfl
            | ok remaining => cases decodePropertyValue env value (chunk.take size) <;> rfl
        · rfl

theorem decode_object (fields : List (ObjectField PropertyValueDefinition)) (chunk : Bytes) :
    decodePropertyValue env (.object fields) chunk =
      (firstCut (layout fields) chunk).elim (.ok (.value .none)) fun slices =>
        (readFields env (fields.zip slices)).map .dict := by
  rw [decodePropertyValue,decodeFields_eq]
  cases firstCut (layout fields) chunk with
  | none => rfl
  | some slices =>
    rw [Option.elim_some,Option.elim_some]
    cases readFields env (fields.zip slices) <;> rfl

/-! ### What is read off a cut -/

/-- The dictionary has the keys of the fields, and each key the decoding of the slice of its last
field. -/
structure Corresponds (reads : List (ObjectField PropertyValueDefinition × Bytes))
    (entries : List (String × Decoded)) : Prop where
  nodup : (entries.map Prod.fst).Nodup
  keys : ∀ key, key ∈ entries.map Prod.fst ↔ ∃ read ∈ reads, read.1.key = key
  values : ∀ before field slice after, reads = before ++ (field,slice) :: after →
    (∀ read ∈ after, read.1.key ≠ field.key) → ∃ value,
      decodePropertyValue env field.value slice = .ok value ∧ Dict.get field.key entries = some value

variable {env} {reads : List (ObjectField PropertyValueDefinition × Bytes)} {failure : Failure}

theorem readFields_corresponds (h : readFields env reads = .ok entries) : Corresponds env reads entries := by
  induction reads generalizing entries with
  | nil =>
    cases h
    exact ⟨List.nodup_nil,by simp,fun before field slice after he => by simp at he⟩
  | cons read reads ih =>
    obtain ⟨field,slice⟩ := read
    rw [readFields] at h
    obtain ⟨remaining,hremaining,h⟩ := Fallible.bind_eq_ok.mp h
    obtain ⟨value,hvalue,h⟩ := Fallible.bind_eq_ok.mp h
    cases h
    obtain ⟨hnodup,hkeys,hvalues⟩ := ih hremaining
    have hget := Dict.get_ofPairs_cons field.key value hnodup
    refine ⟨Dict.nodup_keys_ofPairs _,fun key => ?_,?_⟩
    · rw [Dict.mem_keys_ofPairs,List.map_cons,List.mem_cons,hkeys,List.exists_mem_cons_iff]
      exact or_congr eq_comm Iff.rfl
    · intro before field' slice' after hsplit hlater
      cases before with
      | nil =>
        cases hsplit
        have hnew : field.key ∉ remaining.map Prod.fst := by
          rw [hkeys]
          rintro ⟨read,hread,hkey⟩
          exact hlater read hread hkey
        exact ⟨value,hvalue,by rw [hget,Dict.get_eq_none hnew,if_pos rfl,Option.none_or]⟩
      | cons first before =>
        cases hsplit
        obtain ⟨value',hvalue',hfound⟩ := hvalues before field' slice' after rfl hlater
        exact ⟨value',hvalue',by rw [hget,hfound,Option.some_or]⟩

theorem readFields_error (h : readFields env reads = .error failure) :
    ∃ field slice, (field,slice) ∈ reads ∧ decodePropertyValue env field.value slice = .error failure := by
  induction reads with
  | nil => cases h
  | cons read reads ih =>
    obtain ⟨field,slice⟩ := read
    rw [readFields] at h
    rcases Fallible.bind_eq_error.mp h with hremaining | ⟨_,_,h⟩
    · obtain ⟨field',slice',hmem,hfails⟩ := ih hremaining
      exact ⟨field',slice',List.mem_cons_of_mem _ hmem,hfails⟩
    · rcases Fallible.bind_eq_error.mp h with hvalue | ⟨_,_,h⟩
      · exact ⟨field,slice,List.mem_cons_self,hvalue⟩
      · cases h

/-- A dictionary is read off the first cut, and so is what the decoder raises; without a cut there is
nothing. -/
theorem object_tiles (env : Environment) (fields : List (ObjectField PropertyValueDefinition))
    (chunk : Bytes) :
    let result := decodePropertyValue env (.object fields) chunk
    ((∃ entries, result = .ok (.dict entries)) ↔
      (∃ choice slices, Cuts (layout fields) choice chunk slices) ∧ ∀ failure, result ≠ .error failure) ∧
    (result = .ok (.value .none) ↔ ∀ choice slices, ¬ Cuts (layout fields) choice chunk slices) ∧
    (∀ entries, result = .ok (.dict entries) → ∃ choice slices,
      First (layout fields) choice chunk slices ∧ slices.length = fields.length ∧ slices.flatten = chunk ∧
        Corresponds env (fields.zip slices) entries) ∧
    ∀ failure, result = .error failure → ∃ choice slices, First (layout fields) choice chunk slices ∧
      ∃ field slice, (field,slice) ∈ fields.zip slices ∧
        decodePropertyValue env field.value slice = .error failure := by
  intro result
  have hresult : result = _ := decode_object env fields chunk
  generalize result = r at *
  cases hcut : firstCut (layout fields) chunk with
  | none =>
    rw [hcut,Option.elim_none] at hresult
    subst hresult
    have hnone := firstCut_eq_none.mp hcut
    refine ⟨⟨?_,?_⟩,⟨fun _ => hnone,fun _ => rfl⟩,nofun,nofun⟩
    · rintro ⟨entries,he⟩
      cases he
    · rintro ⟨⟨choice,slices,hcuts⟩,_⟩
      exact absurd hcuts (hnone choice slices)
  | some slices =>
    rw [hcut,Option.elim_some] at hresult
    obtain ⟨choice,hfirst⟩ := firstCut_first hcut
    have hlength : slices.length = fields.length := by
      rw [hfirst.1.length_slices,layout,List.length_map]
    cases hread : readFields env (fields.zip slices) with
    | error failure =>
      rw [hread] at hresult
      subst hresult
      refine ⟨⟨?_,fun h => absurd rfl (h.2 failure)⟩,⟨nofun,fun h => absurd hfirst.1 (h _ _)⟩,nofun,?_⟩
      · rintro ⟨entries,he⟩
        cases he
      · intro failure' he
        cases he
        exact ⟨choice,slices,hfirst,readFields_error hread⟩
    | ok entries =>
      rw [hread] at hresult
      subst hresult
      refine ⟨⟨fun _ => ⟨⟨choice,slices,hfirst.1⟩,nofun⟩,fun _ => ⟨entries,rfl⟩⟩,
        ⟨nofun,fun h => absurd hfirst.1 (h _ _)⟩,?_,nofun⟩
      intro entries' he
      cases he
      exact ⟨choice,slices,hfirst,hlength,hfirst.1.flatten,readFields_corresponds hread⟩

/-! ### Cuts that are not taken -/

/-- What a field takes if each option with a fixed width is an option of the cut. -/
def PropertyValueDefinition.offer : PropertyValueDefinition → Place
  | .array _ itemSize minItems maxItems => .rest itemSize minItems maxItems
  | .oneOf options => .options (options.filterMap byteSize)
  | value => .options value.byteSize.toList

/-- A byte, or else a number of one or two bytes. -/
def bytesOrNumber : ObjectField PropertyValueDefinition where
  key := "value"
  value := .oneOf [.scalar {size := 1},.oneOf [.scalar {size := 1, format := some "uint8"},
    .scalar {size := 2, format := some "uint16"}]]

/-- A number that EPC 0xC2 scales. -/
def scaledNumber : ObjectField PropertyValueDefinition where
  key := "value"
  value := .scalar {size := 1, format := some "uint8", coefficientEpcs := [0xC2]}

def emptyRegistry : Environment where
  arithmetic := .exact
  registry := ⟨fun _ => []⟩
  classCode := some 0x0287

/-- An option without a fixed width spoils its field, and an unknown coefficient is raised. -/
theorem cut_not_taken :
    (¬ ∀ env fields chunk,
      (∃ entries, decodePropertyValue env (.object fields) chunk = .ok (.dict entries)) ↔
        ∃ choice slices, Cuts (fields.map fun field => field.value.offer) choice chunk slices) ∧
    ¬ ∀ env fields chunk,
      (∃ entries, decodePropertyValue env (.object fields) chunk = .ok (.dict entries)) ↔
        ∃ choice slices, Cuts (layout fields) choice chunk slices := by
  constructor
  · intro h
    have hcut : Cuts [bytesOrNumber.value.offer] [0] ([0x05] : Bytes) [[0x05]] :=
      @Cuts.option _ [1] 0 [0x05] [] [] [] [] rfl .nil
    obtain ⟨entries,he⟩ := (h emptyRegistry [bytesOrNumber] [0x05]).mpr ⟨_,_,hcut⟩
    cases he
  · intro h
    have hcut : Cuts (layout [scaledNumber]) [0] ([0x05] : Bytes) [[0x05]] :=
      @Cuts.option _ [1] 0 [0x05] [] [] [] [] rfl .nil
    obtain ⟨entries,he⟩ := (h emptyRegistry [scaledNumber] [0x05]).mpr ⟨_,_,hcut⟩
    cases he

end Pyhems.Codec

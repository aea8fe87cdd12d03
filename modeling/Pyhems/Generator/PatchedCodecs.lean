import Pyhems.Generator.GeneratedCodecs

/-! What a patch leaves of a codec. An entity with states of its own keys and EDTs is read and written as before,
however its states are renamed or ordered. -/
namespace Pyhems.Generator
open Library Codec Fallible
open Protocol (Bytes)
open Get (Epc)

/-- The codecs read and write the same. -/
structure Alike (codec codec' : PropertyCodec) : Prop where
  decode : ∀ arithmetic context edt, codec'.decode arithmetic context edt = codec.decode arithmetic context edt
  encode : ∀ arithmetic value, codec'.encode arithmetic value = codec.encode arithmetic value

theorem alike_refl (codec : PropertyCodec) : Alike codec codec := ⟨fun _ _ _ => rfl,fun _ _ => rfl⟩

section States
variable {before after : List EnumValue}

theorem pairs_perm {α : Type} (h : Renamed before after) (f : Nat × String → α) :
    (after.map fun state => f (edtKey state)).Perm (before.map fun state => f (edtKey state)) := by
  have hmap := h.map f
  rwa [List.map_map,List.map_map] at hmap

/-- A state that is the only one to have a property of EDTs and keys is found in any order. -/
theorem find?_renamed (h : Renamed before after) {p : Nat × String → Bool}
    (honly : ∀ a ∈ before, ∀ b ∈ before, p (edtKey a) → p (edtKey b) → edtKey a = edtKey b) :
    (after.find? fun state => p (edtKey state)).map edtKey = (before.find? fun state => p (edtKey state)).map edtKey := by
  have hfind := FirstMatch.find?_perm (p := p) h ?_
  · rwa [List.find?_map,List.find?_map] at hfind
  · intro a ha b hb hpa hpb
    obtain ⟨first,hfirst,rfl⟩ := List.mem_map.mp ha
    obtain ⟨second,hsecond,rfl⟩ := List.mem_map.mp hb
    exact honly first hfirst second hsecond hpa hpb

/-! ### Temporal codecs -/

theorem alike_temporal {temporal : TemporalDefinition} (h : Renamed before after)
    (hbefore : (TemporalCodec.mk temporal before).Distinct) (hafter : (TemporalCodec.mk temporal after).Distinct) :
    Alike (.temporal temporal before) (.temporal temporal after) where
  decode arithmetic context edt := by
    have hfound : (TemporalCodec.findState ⟨temporal,after⟩ edt).map edtKey =
        (TemporalCodec.findState ⟨temporal,before⟩ edt).map edtKey := by
      refine find?_renamed (p := fun pair => decide (edt = BigEndian.digits temporal.size pair.1)) h ?_
      intro a ha b hb hedt hedt'
      have hvalue := congrArg BigEndian.value ((of_decide_eq_true hedt).symm.trans (of_decide_eq_true hedt'))
      have hfit : ∀ state ∈ before, state.edt < 256^temporal.size := hbefore.fits
      rw [edtKey,edtKey,BigEndian.value_digits_of_lt (hfit a ha),BigEndian.value_digits_of_lt (hfit b hb)] at hvalue
      rw [List.inj_on_of_nodup_map hbefore.edts ha hb hvalue]
    have hkey := congrArg (Option.map fun pair => Value.text pair.2) hfound
    rw [Option.map_map,Option.map_map] at hkey
    have hvalue := congrArg (fun found => (.ok (found.getD ((temporal.decode edt).elim .none .temporal)) :
      Except Failure Value)) hkey
    exact (TemporalCodec.decode_eq hafter).trans (hvalue.trans (TemporalCodec.decode_eq hbefore).symm)
  encode arithmetic value := by
    cases value with
    | text key =>
      have hfound : (after.find? fun state => decide (state.key = key)).map edtKey =
          (before.find? fun state => decide (state.key = key)).map edtKey := by
        refine find?_renamed (p := fun pair => decide (pair.2 = key)) h fun a ha b hb hkey hkey' => ?_
        rw [List.inj_on_of_nodup_map hbefore.keys ha hb
          ((of_decide_eq_true hkey).trans (of_decide_eq_true hkey').symm)]
      rw [PropertyCodec.encode,PropertyCodec.encode]
      cases hold : before.find? fun state => decide (state.key = key) with
      | none =>
        rw [hold,Option.map_none,Option.map_eq_none_iff] at hfound
        rw [hfound]
      | some old =>
        rw [hold,Option.map_some,Option.map_eq_some_iff] at hfound
        obtain ⟨new,hnew,hsame⟩ := hfound
        have hedt : new.edt = old.edt := congrArg Prod.fst hsame
        rw [hnew]
        dsimp only
        rw [PropertyCodec.stateBytes,PropertyCodec.stateBytes,hedt]
    | none | bool _ | number _ | bytes _ | temporal _ => rfl

/-! ### Codecs of one byte -/

theorem alike_enum (h : Renamed before after) (hkeys : (before.map EnumValue.key).Nodup)
    (hedts : (before.map EnumValue.edt).Nodup) (byteOffset : Nat) :
    Alike (.enum (Dict.ofPairs (before.map fun ev => (ev.key,ev.edt))) (Dict.ofPairs (before.map fun ev => (ev.edt,ev.key)))
        byteOffset)
      (.enum (Dict.ofPairs (after.map fun ev => (ev.key,ev.edt))) (Dict.ofPairs (after.map fun ev => (ev.edt,ev.key)))
        byteOffset) where
  decode arithmetic context edt := by
    have hread := Dict.get_ofPairs_perm (d := before.map fun ev => (ev.edt,ev.key)) (by rwa [List.map_map])
      (pairs_perm h id)
    simp only [PropertyCodec.decode]
    congr 1
    cases PropertyCodec.byte byteOffset edt with
    | none => rfl
    | some val => exact congrArg (fun found => Option.elim found Value.none Value.text) (hread val)
  encode arithmetic value := by
    cases value with
    | text key =>
      have hwrite : Dict.get key (Dict.ofPairs (after.map fun ev => (ev.key,ev.edt))) =
          Dict.get key (Dict.ofPairs (before.map fun ev => (ev.key,ev.edt))) :=
        Dict.get_ofPairs_perm (by rwa [List.map_map]) (pairs_perm h Prod.swap) key
      rw [PropertyCodec.encode,PropertyCodec.encode,hwrite]
    | none | bool _ | number _ | bytes _ | temporal _ => rfl

end States

/-! ### Entities -/

/-- The value of an entity is no plain number. -/
def OfStates (entity : EntityDefinition) : Prop :=
  entity.temporal ≠ none ∨ entity.numericValues.getD [] ≠ [] ∨ entity.enumValues ≠ []

/-- The states of an entity have keys and EDTs of their own. -/
structure OwnStates (entity : EntityDefinition) : Prop where
  keys : (entity.enumValues.map EnumValue.key).Nodup
  edts : (entity.enumValues.map EnumValue.edt).Nodup

section Entities
variable {before after : EntityDefinition} {classCode source : Nat}

theorem isBinary_renamed (h : Renamed before.enumValues after.enumValues) : after.isBinary = before.isBinary := by
  have hlength : after.enumValues.length = before.enumValues.length := by simpa using h.length_eq
  simp only [EntityDefinition.isBinary,hlength,h.keys.mem_iff]

theorem getBinaryValues_renamed (h : Renamed before.enumValues after.enumValues) (hepc : after.epc = before.epc)
    (hkeys : (before.enumValues.map EnumValue.key).Nodup) : after.getBinaryValues = before.getBinaryValues := by
  have hlength : after.enumValues.length = before.enumValues.length := by simpa using h.length_eq
  have hvalues : ∀ key, Dict.get key (Dict.ofPairs (after.enumValues.map fun value => (value.key,value.edt))) =
      Dict.get key (Dict.ofPairs (before.enumValues.map fun value => (value.key,value.edt))) := fun key =>
    Dict.get_ofPairs_perm (by rwa [List.map_map]) (pairs_perm h Prod.swap) key
  simp only [EntityDefinition.getBinaryValues,hlength,hvalues,hepc]

theorem getCodecWith_numericValues {entity : EntityDefinition} {value : NumericValueEntry}
    {values : List NumericValueEntry} (htemporal : entity.temporal = none)
    (hvalues : entity.numericValues = some (value :: values)) (lookup : Nat → Epc → Except Failure PropertyCodec)
    (classCode : Option Nat) : getCodecWith lookup entity classCode =
      .ok (.numericValue (Dict.ofPairs ((value :: values).map fun nv => (nv.edt,nv.value))) entity.byteOffset) := by
  unfold getCodecWith
  rw [htemporal,hvalues]

theorem getCodecWith_states {entity : EntityDefinition} (htemporal : entity.temporal = none)
    (hvalues : entity.numericValues.getD [] = []) (hstates : entity.enumValues ≠ [])
    (lookup : Nat → Epc → Except Failure PropertyCodec) (classCode : Option Nat) :
    getCodecWith lookup entity classCode =
      if entity.isBinary then do
        let (onEdt,offEdt) ← entity.getBinaryValues
        pure (.binary onEdt offEdt entity.byteOffset)
      else
        .ok (.enum (Dict.ofPairs (entity.enumValues.map fun ev => (ev.key,ev.edt)))
          (Dict.ofPairs (entity.enumValues.map fun ev => (ev.edt,ev.key))) entity.byteOffset) := by
  unfold getCodecWith
  rw [htemporal]
  dsimp only
  split
  · next value values heq =>
    rw [heq] at hvalues
    cases hvalues
  · rw [if_pos hstates]

/-- A patch leaves the codec of an entity as it is, unless it is one of plain numbers. -/
theorem alike_of_patched (h : Patched before after) (hemitted : Emitted source before) (hstates : OfStates before)
    (hown : OwnStates before) {lookup lookup' : Nat → Epc → Except Failure PropertyCodec} {codec : PropertyCodec}
    (hcodec : getCodecWith lookup before (some classCode) = .ok codec) :
    ∃ codec', getCodecWith lookup' after (some classCode) = .ok codec' ∧ Alike codec codec' := by
  have hrenamed := h.states hown.keys
  cases htemporal : before.temporal with
  | some temporal =>
    obtain ⟨hoffset,hdistinct⟩ := hemitted.temporal temporal htemporal
    obtain ⟨hoffset',hdistinct'⟩ := (emitted_of_patched h hemitted).temporal temporal (h.temporal.trans htemporal)
    rw [getCodecWith,htemporal] at hcodec
    dsimp only at hcodec
    rw [if_neg (not_not.mpr hoffset)] at hcodec
    cases hcodec
    refine ⟨.temporal temporal after.enumValues,?_,alike_temporal hrenamed hdistinct hdistinct'⟩
    rw [getCodecWith,h.temporal,htemporal]
    exact if_neg (not_not.mpr hoffset')
  | none =>
    have htemporal' := h.temporal.trans htemporal
    cases hvalues : before.numericValues.getD [] with
    | cons value values =>
      have hsome : before.numericValues = some (value :: values) := by
        cases hnumeric : before.numericValues with
        | none =>
          rw [hnumeric] at hvalues
          cases hvalues
        | some list =>
          rw [hnumeric] at hvalues
          exact congrArg some hvalues
      rw [getCodecWith_numericValues htemporal hsome] at hcodec
      cases hcodec
      refine ⟨_,getCodecWith_numericValues htemporal' (h.numericValues.trans hsome) _ _,?_⟩
      rw [h.byteOffset]
      exact alike_refl _
    | nil =>
      have hnonempty : before.enumValues ≠ [] := by
        obtain hne | hne | hne := hstates
        · exact absurd htemporal hne
        · exact absurd hvalues hne
        · exact hne
      have hnonempty' : after.enumValues ≠ [] := by
        intro hempty
        rw [Renamed,hempty] at hrenamed
        exact hnonempty (List.map_eq_nil_iff.mp (List.nil_perm.mp hrenamed))
      have hvalues' : after.numericValues.getD [] = [] := by rw [h.numericValues,hvalues]
      rw [getCodecWith_states htemporal hvalues hnonempty] at hcodec
      rw [getCodecWith_states htemporal' hvalues' hnonempty',isBinary_renamed hrenamed,
        getBinaryValues_renamed hrenamed h.epc hown.keys,h.byteOffset]
      split at hcodec
      · next hbinary =>
        rw [if_pos hbinary]
        exact ⟨codec,hcodec,alike_refl codec⟩
      · next hbinary =>
        cases hcodec
        rw [if_neg hbinary]
        exact ⟨_,rfl,alike_enum hrenamed hown.keys hown.edts before.byteOffset⟩

end Entities

/-! ### The registry -/

/-- What comes of a place in the list of a class. -/
theorem patched_of_extended {epcs : List Epc} {originals entities : List EntityDefinition}
    (h : Extended epcs originals entities) {index : Nat} {before : EntityDefinition}
    (hbefore : originals[index]? = some before) : ∃ after, entities[index]? = some after ∧ Patched before after := by
  obtain ⟨patched,defined,rfl,hpatched,_⟩ := h
  obtain ⟨hindex,heq⟩ := List.getElem?_eq_some_iff.mp hbefore
  have hindex' : index < patched.length := by rwa [← hpatched.length_eq]
  have hrel := hpatched.get hindex hindex'
  rw [List.get_eq_getElem,List.get_eq_getElem,heq] at hrel
  refine ⟨patched[index],?_,hrel⟩
  rw [List.getElem?_append_left hindex',List.getElem?_eq_getElem hindex']

section Registry
variable {inputs : Inputs} {generated build : DefinitionsBuild} {classCode : Nat}

/-- The custom definitions leave every entity that a class has of its own from the MRA at its place, under its id and
its coordinates, and one that is no plain number is read and written as before. -/
theorem Inputs.patched (h : inputs.WellFormed) (hgenerate : inputs.generate = .ok generated)
    (hbuild : inputs.build = .ok build) {index : Nat} {before : EntityDefinition}
    (hbefore : (definitionsOf (generated.entities classCode))[index]? = some before) :
    ∃ after, (definitionsOf (build.entities classCode))[index]? = some after ∧ after.id = before.id ∧
      coordinates after = coordinates before ∧ (OfStates before → OwnStates before → ∀ codec,
        getCodec generated.registry before (some classCode) = .ok codec →
          ∃ codec', getCodec build.registry after (some classCode) = .ok codec' ∧ Alike codec codec') := by
  obtain ⟨other,hother,hsound,hcustomized,_⟩ := customized_of_build h hbuild
  cases hgenerate.symm.trans hother
  obtain ⟨after,hafter,hpatched⟩ := patched_of_extended (hcustomized.extended classCode) hbefore
  refine ⟨after,hafter,hpatched.id,hpatched.coordinates,?_⟩
  intro hstates hown codec hcodec
  have hemitted := (hsound.apart classCode).emitted before (List.mem_of_getElem? hbefore)
  exact alike_of_patched hpatched hemitted hstates hown hcodec

def modeEntity : EntityDefinition where
  id := "class_0130_epc_b0"
  epc := 0xB0
  nameEn := "Operation mode setting"
  nameJa := "Operation mode setting"
  readable := true
  writable := true
  descriptionEn := some ""
  descriptionJa := some ""
  enumValues := [⟨0x41,"auto","auto","auto"⟩,⟨0x42,"cooling","cooling","cooling"⟩,⟨0x43,"heating","heating","heating"⟩]

theorem Inputs.patched_mode : ∃ after, (definitionsOf (airConditionerBuild.entities 0x0130))[1]? = some after ∧
    after.id = "class_0130_epc_b0" ∧ ∃ codec', getCodec airConditionerBuild.registry after (some 0x0130) = .ok codec' ∧
      codec'.encode .exact (.text "cooling") = .ok [0x42] := by
  have hbefore : (definitionsOf (airConditionerMra.entities 0x0130))[1]? = some modeEntity := by decide +kernel
  obtain ⟨after,hafter,hid,_,hcodec⟩ :=
    Inputs.patched airConditioner_wellFormed airConditioner_generate airConditioner_build hbefore
  have hstates : StateEntity modeEntity := ⟨rfl,rfl,rfl,nofun⟩
  obtain ⟨codec,hmode,hcodes⟩ := @StateEntity.codes modeEntity airConditionerMra.registry (some 0x0130) hstates
    (by decide) (by decide) (by decide)
  obtain ⟨codec',hcodec',halike⟩ := hcodec (Or.inr (Or.inr nofun)) ⟨by decide,by decide⟩ codec hmode
  refine ⟨after,hafter,hid,codec',hcodec',?_⟩
  rw [halike.encode]
  exact hcodes.encode ⟨0x42,"cooling","cooling","cooling"⟩ (by decide) .exact

end Registry

end Pyhems.Generator

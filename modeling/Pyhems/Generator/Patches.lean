import Mathlib.Data.List.Perm.Subperm
import Pyhems.Generator.Custom

/-! What a patch may change: names, roles, access and limits, and the order of the states of an enum. Where an entity
is found and what its EDTs mean stays. -/
namespace Pyhems.Generator
open Library Codec Fallible
open Get (Epc)

/-! ### States -/

/-- The EDT of a state and what it means. -/
def edtKey (state : EnumValue) : Nat × String := (state.edt,state.key)

/-- The same states, in another order or under other display names. -/
def Renamed (before after : List EnumValue) : Prop := (after.map edtKey).Perm (before.map edtKey)

section Renamed
variable {before after last : List EnumValue}

theorem Renamed.refl (states : List EnumValue) : Renamed states states := List.Perm.refl _

theorem Renamed.trans (h : Renamed before after) (h' : Renamed after last) : Renamed before last :=
  List.Perm.trans h' h

theorem Renamed.keys (h : Renamed before after) :
    (after.map EnumValue.key).Perm (before.map EnumValue.key) := by
  have hsnd := h.map Prod.snd
  rwa [List.map_map,List.map_map] at hsnd

theorem Renamed.edts (h : Renamed before after) :
    (after.map EnumValue.edt).Perm (before.map EnumValue.edt) := by
  have hfst := h.map Prod.fst
  rwa [List.map_map,List.map_map] at hfst

end Renamed

/-- What the loop over the patches of an enum keeps. -/
structure Patching (byKey updated : List (String × EnumValue)) (patchOrder : List String) : Prop where
  meaning : ∀ key, (Dict.get key updated).map edtKey = (Dict.get key byKey).map edtKey
  known : ∀ key ∈ patchOrder, key ∈ byKey.map Prod.fst
  once : patchOrder.Nodup

theorem patching_step {byKey : List (String × EnumValue)} {classCode : Nat} {entry : PropertyEntry}
    {state state' : List (String × EnumValue) × List String} {patch : Option EnumEntry}
    (h : Patching byKey state.1 state.2) (hstep : enumPatchStep byKey classCode entry state patch = .ok state') :
    Patching byKey state'.1 state'.2 := by
  cases patch with
  | none => cases hstep
  | some patch =>
  obtain ⟨_,hstep⟩ := ite_error_eq_ok.mp hstep
  split at hstep
  · next key _ =>
    split at hstep
    · cases hstep
    next current hcurrent =>
    obtain ⟨hnew,hstep⟩ := ite_error_eq_ok.mp hstep
    obtain ⟨_,hstep⟩ := ite_error_eq_ok.mp hstep
    cases hstep
    refine ⟨?_,?_,?_⟩
    · intro other
      rw [Dict.get_insert]
      split
      · next heq =>
        rw [← heq,hcurrent]
        rfl
      · exact h.meaning other
    · intro other hother
      obtain hother | hother := List.mem_append.mp hother
      · exact h.known other hother
      · rw [List.mem_singleton.mp hother]
        exact List.mem_map_of_mem (Dict.mem_of_get hcurrent)
    · exact List.nodup_append.mpr ⟨h.once,List.nodup_singleton key,fun a ha b hb heq =>
        hnew (by rwa [← List.mem_singleton.mp hb,← heq])⟩
  · cases hstep

/-- Of different keys, a patch of an enum leaves each with its EDT. -/
theorem renamed_of_patch {enumValues after : List EnumValue} {values : EnumField} {classCode : Nat}
    {entry : PropertyEntry} (hkeys : (enumValues.map EnumValue.key).Nodup)
    (h : applyEnumPatch enumValues values classCode entry = .ok after) : Renamed enumValues after := by
  cases values with
  | null | other => cases h
  | entries patches =>
    have hnodup : ((enumValues.map fun value => (value.key,value)).map Prod.fst).Nodup := by
      rwa [List.map_map]
    rw [applyEnumPatch,Dict.ofPairs_eq_self hnodup] at h
    generalize hbyKey : (enumValues.map fun value => (value.key,value)) = byKey at h hnodup
    have hnames : byKey.map Prod.fst = enumValues.map EnumValue.key := by
      rw [← hbyKey,List.map_map]
      rfl
    obtain ⟨⟨updated,patchOrder⟩,hloop,h⟩ := bind_eq_ok.mp h
    have hpatching : Patching byKey updated patchOrder := by
      refine foldlM_invariant (fun _ state => Patching byKey state.1 state.2) ?_ ?_ hloop
      · exact fun _ _ _ _ hinv hstep => patching_step hinv hstep
      · exact ⟨fun _ => rfl,List.forall_mem_nil _,List.nodup_nil⟩
    -- the values that are read for keys, by their EDTs
    have hread : ∀ keys : List String, (keys.filterMap fun key => Dict.get key updated).map edtKey =
        keys.filterMap fun key => (Dict.get key byKey).map edtKey := by
      intro keys
      rw [List.map_filterMap]
      exact List.filterMap_congr fun key _ => hpatching.meaning key
    have hall : (enumValues.map EnumValue.key).filterMap (fun key => (Dict.get key byKey).map edtKey) =
        enumValues.map edtKey := by
      rw [List.filterMap_map,List.filterMap_congr (g := fun value => some (edtKey value)),List.filterMap_eq_map']
      intro value hvalue
      have hget := (Dict.get_eq_some hnodup).mpr (hbyKey ▸ List.mem_map_of_mem hvalue)
      rw [Function.comp_apply,hget]
      rfl
    dsimp only at h
    split at h
    · next hlength =>
      cases h
      have horder : patchOrder.Perm (enumValues.map EnumValue.key) := by
        refine (hpatching.once.subperm ?_).perm_of_length_le ?_
        · intro key hkey
          rw [← hnames]
          exact hpatching.known key hkey
        · rw [← hnames,List.length_map,hlength]
      rw [Renamed,hread,← hall]
      exact horder.filterMap _
    · cases h
      have hkeysMap : enumValues.filterMap (fun value => Dict.get value.key updated) =
          (enumValues.map EnumValue.key).filterMap fun key => Dict.get key updated := by
        rw [List.filterMap_map]
        rfl
      rw [Renamed,hkeysMap,hread,hall]

/-! ### Entities -/

/-- Where an entity is found. -/
def coordinates (entity : EntityDefinition) : Epc × Nat × Option Nat :=
  (entity.epc,entity.byteOffset,entity.manufacturerCode)

/-- What every patch leaves of an entity. -/
structure Patched (before after : EntityDefinition) : Prop where
  id : after.id = before.id
  coordinates : coordinates after = coordinates before
  numericValues : after.numericValues = before.numericValues
  coefficientEpcs : after.coefficientEpcs = before.coefficientEpcs
  temporal : after.temporal = before.temporal
  states : (before.enumValues.map EnumValue.key).Nodup → Renamed before.enumValues after.enumValues

section Patched
variable {before after last : EntityDefinition}

theorem Patched.refl (entity : EntityDefinition) : Patched entity entity :=
  ⟨rfl,rfl,rfl,rfl,rfl,fun _ => Renamed.refl _⟩

theorem Patched.trans (h : Patched before after) (h' : Patched after last) : Patched before last where
  id := h'.id.trans h.id
  coordinates := h'.coordinates.trans h.coordinates
  numericValues := h'.numericValues.trans h.numericValues
  coefficientEpcs := h'.coefficientEpcs.trans h.coefficientEpcs
  temporal := h'.temporal.trans h.temporal
  states hkeys := by
    have hfirst := h.states hkeys
    exact hfirst.trans (h'.states (hfirst.keys.nodup_iff.mpr hkeys))

theorem Patched.epc (h : Patched before after) : after.epc = before.epc := congrArg Prod.fst h.coordinates

theorem Patched.byteOffset (h : Patched before after) : after.byteOffset = before.byteOffset :=
  congrArg (fun place => place.2.1) h.coordinates

theorem Patched.manufacturerCode (h : Patched before after) : after.manufacturerCode = before.manufacturerCode :=
  congrArg (fun place => place.2.2) h.coordinates

end Patched

section Patch
variable {classCode : Nat} {entry : PropertyEntry} {fields : NumericFields}

theorem renamed_of_statesField {enumValues after : List EnumValue} (hkeys : (enumValues.map EnumValue.key).Nodup)
    (h : statesField enumValues classCode entry = .ok after) : Renamed enumValues after := by
  rw [statesField] at h
  split at h
  · cases h
    exact Renamed.refl _
  · exact renamed_of_patch hkeys h

theorem patched_of_patchEntity {entity patched : BuildEntity}
    (h : patchEntity classCode entry fields entity = .ok patched) :
    Patched entity.toEntityDefinition patched.toEntityDefinition := by
  obtain ⟨_,h⟩ := ite_error_eq_ok.mp h
  obtain ⟨_,h⟩ := ite_error_eq_ok.mp h
  obtain ⟨readable,_,h⟩ := bind_eq_ok.mp h
  obtain ⟨writable,_,h⟩ := bind_eq_ok.mp h
  obtain ⟨role,_,h⟩ := bind_eq_ok.mp h
  obtain ⟨enumValues,hstates,h⟩ := bind_eq_ok.mp h
  obtain ⟨_,_,h⟩ := bind_eq_ok.mp h
  cases h
  exact ⟨rfl,rfl,rfl,rfl,rfl,fun hkeys => renamed_of_statesField hkeys hstates⟩

theorem patched_of_patchTargets {target : BuildEntity → Bool} {entities after : List BuildEntity}
    (h : patchTargets classCode entry fields target entities = .ok after) :
    List.Forall₂ (fun before after => Patched before.toEntityDefinition after.toEntityDefinition ∧
      (target before = false → after = before)) entities after := by
  refine (mapM_eq_ok.mp h).imp ?_
  intro before after hpatch
  split at hpatch
  · next htarget => exact ⟨patched_of_patchEntity hpatch,fun hother => absurd htarget (by rw [hother]; decide)⟩
  · cases hpatch
    exact ⟨Patched.refl _,fun _ => rfl⟩

/-- A patch is one of the entities of a property of the MRA. -/
theorem patched_of_applyPatch {mraEpcs commonEpcs : List Epc} {entities after : List BuildEntity}
    (h : applyPatch mraEpcs commonEpcs classCode entry entities = .ok after) :
    List.Forall₂ (fun before after => Patched before.toEntityDefinition after.toEntityDefinition ∧
      (before.epc ∉ mraEpcs → after = before)) entities after := by
  obtain ⟨_,h⟩ := ite_error_eq_ok.mp h
  obtain ⟨⟨epc,_⟩,_,h⟩ := bind_eq_ok.mp h
  obtain ⟨hmra,h⟩ := ite_error_eq_ok.mp h
  obtain ⟨_,h⟩ := ite_error_eq_ok.mp h
  obtain ⟨_,h⟩ := ite_error_eq_ok.mp h
  obtain ⟨_,h⟩ := ite_error_eq_ok.mp h
  obtain ⟨fields,_,h⟩ := bind_eq_ok.mp h
  obtain ⟨_,h⟩ := ite_error_eq_ok.mp h
  obtain ⟨_,h⟩ := ite_error_eq_ok.mp h
  rw [not_not] at hmra
  have hother : ∀ {entity : BuildEntity}, entity.epc ∉ mraEpcs → entity.epc ≠ epc :=
    fun hnot heq => hnot (heq ▸ hmra)
  dsimp only at h
  split at h
  · refine (patched_of_patchTargets h).imp ?_
    intro before after hpatched
    exact ⟨hpatched.1,fun hnot => hpatched.2 (decide_eq_false (hother hnot))⟩
  · obtain ⟨byteOffset,_,h⟩ := bind_eq_ok.mp h
    obtain ⟨_,h⟩ := ite_error_eq_ok.mp h
    refine (patched_of_patchTargets h).imp ?_
    intro before after hpatched
    exact ⟨hpatched.1,fun hnot => hpatched.2 (decide_eq_false fun heq => hother hnot heq.1)⟩

end Patch

/-! ### Classes -/

theorem emitted_of_patched {classCode : Nat} {before after : EntityDefinition} (h : Patched before after)
    (hbefore : Emitted classCode before) : Emitted classCode after where
  id := by rw [h.id,h.epc,h.manufacturerCode,h.byteOffset,hbefore.id]
  temporal temporal htemporal := by
    rw [h.temporal] at htemporal
    obtain ⟨hoffset,hdistinct⟩ := hbefore.temporal temporal htemporal
    have hrenamed := h.states hdistinct.keys
    refine ⟨h.byteOffset.trans hoffset,hrenamed.keys.nodup_iff.mpr hdistinct.keys,
      hrenamed.edts.nodup_iff.mpr hdistinct.edts,?_⟩
    intro state hstate
    have hedt := hrenamed.edts.mem_iff.mp (List.mem_map_of_mem hstate)
    obtain ⟨former,hformer,heq⟩ := List.mem_map.mp hedt
    rw [← heq]
    exact hdistinct.fits former hformer

theorem separate_of_patched {before after : List EntityDefinition} (h : List.Forall₂ Patched before after)
    (hbefore : Separate before) : Separate after := by
  have hplaces : after.map coordinates = before.map coordinates := by
    rw [← List.forall₂_eq_eq_eq,List.forall₂_map_left_iff,List.forall₂_map_right_iff]
    exact h.flip.imp fun _ _ hpatched => hpatched.coordinates
  have hclash : ∀ entities, Separate entities ↔ (entities.map coordinates).Pairwise fun a b =>
      ¬ (a.1 = b.1 ∧ a.2.1 = b.2.1 ∧ (a.2.2 = b.2.2 ∨ a.2.2 = none ∨ b.2.2 = none)) := by
    intro entities
    rw [List.pairwise_map]
    rfl
  rwa [hclash,hplaces,← hclash]

end Pyhems.Generator

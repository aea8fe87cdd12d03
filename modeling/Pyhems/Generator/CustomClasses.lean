import Pyhems.Generator.CustomEntities

/-! What the custom definitions make of a class. The entities of the MRA stay at their places, patched; the others are
defined, none of them where another one is found. -/
namespace Pyhems.Generator
open Library Codec Fallible
open Get (Epc)

/-! ### Entities of a class -/

/-- What holds of the entities of a class whose MRA file has the EPCs. -/
structure OfClass (classCode : Nat) (epcs : List Epc) (entities : List EntityDefinition) : Prop where
  separate : Separate entities
  emitted : ∀ entity ∈ entities, Emitted classCode entity
  generated : ∀ entity ∈ entities, entity.epc ∈ epcs → entity.manufacturerCode = none
  defined : ∀ entity ∈ entities, entity.epc ∉ epcs → Defined classCode entity

/-- The entities of the MRA, patched, with definitions behind them. -/
def Extended (epcs : List Epc) (before after : List EntityDefinition) : Prop :=
  ∃ patched defined, after = patched ++ defined ∧ List.Forall₂ Patched before patched ∧
    ∀ entity ∈ defined, entity.epc ∉ epcs

theorem Apart.ofClass {classCode : Nat} {epcs : List Epc} {entities : List EntityDefinition}
    (h : Apart classCode epcs entities) : OfClass classCode epcs entities where
  separate := h.separate
  emitted := h.emitted
  generated entity hentity _ := (h.scope entity hentity).2
  defined entity hentity hother := absurd (h.scope entity hentity).1 hother

theorem extended_refl (epcs : List Epc) (entities : List EntityDefinition) : Extended epcs entities entities :=
  ⟨entities,[],(List.append_nil _).symm,List.forall₂_same.mpr fun entity _ => Patched.refl entity,
    List.forall_mem_nil _⟩

/-- What a patch is to the entities of a class. -/
abbrev PatchedWithin (epcs : List Epc) (before after : EntityDefinition) : Prop :=
  Patched before after ∧ (before.epc ∉ epcs → after = before)

section Patch
variable {classCode : Nat} {epcs : List Epc} {original before after : List EntityDefinition}

theorem OfClass.patch (h : OfClass classCode epcs before) (hpatch : List.Forall₂ (PatchedWithin epcs) before after) :
    OfClass classCode epcs after where
  separate := separate_of_patched (hpatch.imp fun _ _ hboth => hboth.1) h.separate
  emitted := forall_mem_of_forall₂ hpatch h.emitted fun _ _ hbefore hboth => emitted_of_patched hboth.1 hbefore
  generated := by
    refine forall_mem_of_forall₂ hpatch h.generated ?_
    intro entity patched hbefore hboth hmem
    rw [hboth.1.epc] at hmem
    exact hboth.1.manufacturerCode.trans (hbefore hmem)
  defined := by
    refine forall_mem_of_forall₂ hpatch h.defined ?_
    intro entity patched hbefore hboth hother
    rw [hboth.1.epc] at hother
    rw [hboth.2 hother]
    exact hbefore hother

theorem Extended.patch (h : Extended epcs original before)
    (hpatch : List.Forall₂ (PatchedWithin epcs) before after) : Extended epcs original after := by
  obtain ⟨patched,defined,rfl,hpatched,hdefined⟩ := h
  have hfirst := (List.forall₂_take_append _ _ _ hpatch.flip).flip
  have hrest := (List.forall₂_drop_append _ _ _ hpatch.flip).flip
  refine ⟨_,_,(List.take_append_drop patched.length after).symm,?_,?_⟩
  · exact forall₂_of_common hpatched.flip hfirst fun _ _ _ hpatched hboth => hpatched.trans hboth.1
  · refine forall_mem_of_forall₂ hrest hdefined ?_
    intro entity patched hbefore hboth
    rwa [hboth.1.epc]

end Patch

/-! ### Definitions -/

section Define
variable {classCode : Nat} {epcs : List Epc} {original entities : List EntityDefinition} {entity : EntityDefinition}

/-- Two definitions that clash have the same coordinates. -/
theorem Clash.coordinates {other : EntityDefinition} (h : Clash other entity) (hother : Defined classCode other)
    (hentity : Defined classCode entity) : coordinates other = coordinates entity := by
  obtain ⟨hepc,hoffset,hscope⟩ := h
  have hboth : other.manufacturerCode ≠ none ↔ entity.manufacturerCode ≠ none := by
    rw [hother.scope,hentity.scope,hepc]
  have hsame : other.manufacturerCode = entity.manufacturerCode := by
    obtain hsame | hnone | hnone := hscope
    · exact hsame
    · rw [hnone,eq_comm]
      exact not_not.mp fun hsome => hboth.mpr hsome hnone
    · rw [hnone]
      exact not_not.mp fun hsome => hboth.mp hsome hnone
  rw [Generator.coordinates,Generator.coordinates,hepc,hoffset,hsame]

theorem OfClass.define (h : OfClass classCode epcs entities) (hentity : Defined classCode entity)
    (hnew : entity.epc ∉ epcs)
    (hfree : ∀ other ∈ entities, other.epc ∉ epcs → coordinates other ≠ coordinates entity) :
    OfClass classCode epcs (entities ++ [entity]) where
  separate := by
    refine List.pairwise_append.mpr ⟨h.separate,List.pairwise_singleton _ _,?_⟩
    intro other hother last hlast hclash
    rw [List.mem_singleton.mp hlast] at hclash
    have hmissing : other.epc ∉ epcs := by rwa [hclash.1]
    exact hfree other hother hmissing (hclash.coordinates (h.defined other hother hmissing) hentity)
  emitted := List.forall_mem_append.mpr ⟨h.emitted,List.forall_mem_singleton.mpr
    ⟨hentity.id,fun temporal htemporal => by rw [hentity.temporal] at htemporal; cases htemporal⟩⟩
  generated := List.forall_mem_append.mpr ⟨h.generated,List.forall_mem_singleton.mpr fun hmem => absurd hmem hnew⟩
  defined := List.forall_mem_append.mpr ⟨h.defined,List.forall_mem_singleton.mpr fun _ => hentity⟩

theorem Extended.define (h : Extended epcs original entities) (hnew : entity.epc ∉ epcs) :
    Extended epcs original (entities ++ [entity]) := by
  obtain ⟨patched,defined,rfl,hpatched,hdefined⟩ := h
  exact ⟨patched,defined ++ [entity],List.append_assoc _ _ _,hpatched,
    List.forall_mem_append.mpr ⟨hdefined,List.forall_mem_singleton.mpr hnew⟩⟩

end Define

/-! ### The properties of a class -/

/-- What the loop over the properties of a class keeps. -/
structure Defines (classCode : Nat) (epcs : List Epc) (original : List EntityDefinition) (state : Defining) : Prop where
  ofClass : OfClass classCode epcs (definitionsOf state.entities)
  extended : Extended epcs original (definitionsOf state.entities)
  recorded : ∀ entity ∈ definitionsOf state.entities, entity.epc ∉ epcs → coordinates entity ∈ state.defineKeys

section Properties
variable {classCode : Nat} {epcs commonEpcs : List Epc} {original : List EntityDefinition} {state state' : Defining}

theorem definitionsOf_concat (entities : List BuildEntity) (entity : BuildEntity) :
    definitionsOf (entities ++ [entity]) = definitionsOf entities ++ [entity.toEntityDefinition] := List.map_append

theorem Defines.patch {entry : PropertyEntry} {entities : List BuildEntity}
    (h : Defines classCode epcs original state)
    (hpatch : applyPatch epcs commonEpcs classCode entry state.entities = .ok entities) :
    Defines classCode epcs original {state with entities} := by
  have hpatched : List.Forall₂ (PatchedWithin epcs) (definitionsOf state.entities) (definitionsOf entities) := by
    rw [definitionsOf,definitionsOf,List.forall₂_map_left_iff,List.forall₂_map_right_iff]
    refine (patched_of_applyPatch hpatch).imp ?_
    intro before after hboth
    exact ⟨hboth.1,fun hother => congrArg _ (hboth.2 hother)⟩
  refine ⟨h.ofClass.patch hpatched,h.extended.patch hpatched,forall_mem_of_forall₂ hpatched h.recorded ?_⟩
  intro before after hbefore hboth hother
  rw [hboth.1.epc] at hother
  rw [hboth.1.coordinates]
  exact hbefore hother

theorem Defines.define {entry : PropertyEntry} (h : Defines classCode epcs original state)
    (hdefine : applyDefine epcs classCode state entry = .ok state') : Defines classCode epcs original state' := by
  obtain ⟨⟨epc,manufacturerCode⟩,hplace,hdefine⟩ := bind_eq_ok.mp hdefine
  obtain ⟨hmissing,hdefine⟩ := ite_error_eq_ok.mp hdefine
  obtain ⟨byteOffset,hoffset,hdefine⟩ := bind_eq_ok.mp hdefine
  obtain ⟨hnew,hdefine⟩ := ite_error_eq_ok.mp hdefine
  obtain ⟨_,hdefine⟩ := ite_error_eq_ok.mp hdefine
  obtain ⟨_,hdefine⟩ := ite_error_eq_ok.mp hdefine
  obtain ⟨entity,hentity,hdefine⟩ := bind_eq_ok.mp hdefine
  cases hdefine
  obtain ⟨hcoordinates,hdefined⟩ := defined_of_build hplace hoffset hentity
  have hepc : entity.epc ∉ epcs := by
    have heq : entity.epc = epc := congrArg Prod.fst hcoordinates
    rwa [heq]
  refine ⟨?_,?_,?_⟩
  · rw [definitionsOf_concat]
    refine h.ofClass.define hdefined hepc ?_
    intro other hother hotherEpc heq
    have hkey := h.recorded other hother hotherEpc
    rw [heq,hcoordinates] at hkey
    exact hnew hkey
  · rw [definitionsOf_concat]
    exact h.extended.define hepc
  · rw [definitionsOf_concat]
    refine List.forall_mem_append.mpr ⟨?_,List.forall_mem_singleton.mpr fun _ => ?_⟩
    · exact fun other hother hotherEpc => List.mem_append_left _ (h.recorded other hother hotherEpc)
    · rw [hcoordinates]
      exact List.mem_append_right _ (List.mem_singleton.mpr rfl)

theorem defines_step {entry : Option PropertyEntry} (h : Defines classCode epcs original state)
    (hstep : applyProperty epcs commonEpcs classCode state entry = .ok state') :
    Defines classCode epcs original state' := by
  cases entry with
  | none => cases hstep
  | some entry =>
    rw [applyProperty] at hstep
    split at hstep
    · obtain ⟨entities,hpatch,hstep⟩ := bind_eq_ok.mp hstep
      cases hstep
      exact h.patch hpatch
    · exact h.define hstep
    · cases hstep

/-- The properties of a class, applied to entities of which none was defined before. -/
theorem defines_of_properties {properties : List (Option PropertyEntry)} {entities : List BuildEntity}
    (h : OfClass classCode epcs (definitionsOf entities)) (hfresh : ∀ entity ∈ definitionsOf entities, entity.epc ∈ epcs)
    (hloop : properties.foldlM (applyProperty epcs commonEpcs classCode) {entities} = .ok state) :
    Defines classCode epcs (definitionsOf entities) state := by
  refine foldlM_invariant (fun _ => Defines classCode epcs (definitionsOf entities)) ?_ ?_ hloop
  · exact fun _ _ _ _ hinv hstep => defines_step hinv hstep
  · exact ⟨h,extended_refl epcs _,fun entity hentity hother => absurd (hfresh entity hentity) hother⟩

end Properties

end Pyhems.Generator

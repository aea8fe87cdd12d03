import Pyhems.Generator.CustomClasses

/-! What the custom definitions make of a build. Every class goes through them once, since it is the key of a
mapping; classes that are not in the file stay as they are. -/
namespace Pyhems.Generator
open Library Codec Fallible
open Get (Epc)

namespace DefinitionsBuild

/-- The entities that a class has of its own. -/
def entities (build : DefinitionsBuild) (classCode : Nat) : List BuildEntity :=
  (Dict.get classCode build.devices).elim [] DeviceBuild.entities

def structuredValues (build : DefinitionsBuild) (classCode : Nat) : List (Epc × PropertyValueDefinition) :=
  (Dict.get classCode build.devices).elim [] DeviceBuild.structuredValues

/-- The EPCs of the MRA file of a class. -/
def epcs (build : DefinitionsBuild) (classCode : Nat) : List Epc := (Dict.get classCode build.mraEpcs).getD []

/-- What holds of a build with its custom definitions. -/
structure Consistent (build : DefinitionsBuild) : Prop where
  common : Apart 0 build.commonEpcs (definitionsOf build.common)
  ofClass : ∀ classCode, OfClass classCode (build.epcs classCode) (definitionsOf (build.entities classCode))

/-- What the loop over the classes keeps, with the classes that are left. -/
structure Customized (original : DefinitionsBuild) (left : List (Scalar × Option ClassEntry))
    (build : DefinitionsBuild) : Prop where
  consistent : build.Consistent
  common : build.common = original.common
  structuredValues : ∀ classCode, build.structuredValues classCode = original.structuredValues classCode
  known : ∀ classCode, Dict.get classCode original.devices ≠ none →
    Dict.get classCode build.devices ≠ none ∧ build.epcs classCode = original.epcs classCode
  once : (left.map Prod.fst).Nodup
  extended : ∀ classCode : Nat, Extended (build.epcs classCode) (definitionsOf (original.entities classCode))
    (definitionsOf (build.entities classCode))
  untouched : ∀ classCode : Nat, Scalar.int classCode ∈ left.map Prod.fst →
    build.entities classCode = original.entities classCode ∧
      ∀ entity ∈ definitionsOf (build.entities classCode), entity.epc ∈ build.epcs classCode

end DefinitionsBuild

section Classes
variable {build build' original : DefinitionsBuild}

/-- Of a build from the MRA, every entity has an EPC of the file of its class. -/
theorem DefinitionsBuild.Sound.apart (h : build.Sound) (classCode : Nat) :
    Apart classCode (build.epcs classCode) (definitionsOf (build.entities classCode)) := by
  cases hdevice : Dict.get classCode build.devices with
  | none =>
    rw [DefinitionsBuild.entities,hdevice]
    exact ⟨.nil,List.forall_mem_nil _,List.forall_mem_nil _⟩
  | some device =>
    obtain ⟨epcs,hepcs,hapart⟩ := h.device classCode device hdevice
    rw [DefinitionsBuild.entities,DefinitionsBuild.epcs,hdevice,hepcs]
    exact hapart

theorem entities_of_customDevice {classCode : Nat} {entry : ClassEntry} {device : DeviceBuild}
    (h : customDevice build classCode entry = .ok device) : device.entities = build.entities classCode ∧
      device.structuredValues = build.structuredValues classCode := by
  rw [DefinitionsBuild.entities,DefinitionsBuild.structuredValues]
  unfold customDevice at h
  split at h
  · next hnone =>
    split at h
    · obtain ⟨shortName,_,h⟩ := bind_eq_ok.mp h
      cases h
      rw [hnone]
      exact ⟨rfl,rfl⟩
    · cases h
  · next hsome =>
    obtain ⟨_,h⟩ := ite_error_eq_ok.mp h
    rw [hsome]
    split at h
    · cases h
      exact ⟨rfl,rfl⟩
    split at h
    · cases h
      exact ⟨rfl,rfl⟩
    · cases h

/-- What the definitions of a class change. -/
structure ClassStep (build build' : DefinitionsBuild) (classCode : Nat) (state : Defining) : Prop where
  common : build'.common = build.common
  commonEpcs : build'.commonEpcs = build.commonEpcs
  entities : build'.entities classCode = state.entities
  structuredValues : ∀ other, build'.structuredValues other = build.structuredValues other
  known : ∀ other, Dict.get other build.devices ≠ none → Dict.get other build'.devices ≠ none
  epcs : build'.epcs classCode = build.epcs classCode ∨ Dict.get classCode build.devices = none
  otherEntities : ∀ other, other ≠ classCode → build'.entities other = build.entities other
  otherEpcs : ∀ other, other ≠ classCode → build'.epcs other = build.epcs other

theorem classStep_of_apply {item : Scalar × Option ClassEntry} (h : applyClass build item = .ok build') :
    ∃ (classCode : Nat) (properties : List (Option PropertyEntry)) (state : Defining),
      item.1 = .int classCode ∧ ClassStep build build' classCode state ∧
        properties.foldlM (applyProperty (build'.epcs classCode) build.commonEpcs classCode)
          {entities := build.entities classCode} = .ok state := by
  obtain ⟨classCode,hcode,h⟩ := bind_eq_ok.mp h
  have hint : item.1 = .int classCode := by
    unfold validateCustomClassCode at hcode
    split at hcode
    · next n heq =>
      obtain ⟨_,hcode⟩ := ite_error_eq_ok.mp hcode
      split at hcode
      · cases hcode
        exact heq
      · cases hcode
    · cases hcode
  split at h
  · cases h
  next entry _ =>
  obtain ⟨_,h⟩ := ite_error_eq_ok.mp h
  dsimp only at h
  split at h
  · cases h
  · cases h
  next properties _ _ =>
  obtain ⟨device,hdevice,h⟩ := bind_eq_ok.mp h
  obtain ⟨state,hstate,h⟩ := bind_eq_ok.mp h
  cases h
  obtain ⟨hentities,hstructured⟩ := entities_of_customDevice hdevice
  refine ⟨classCode,properties,state,hint,⟨rfl,rfl,?_,?_,?_,?_,?_,?_⟩,?_⟩
  · rw [DefinitionsBuild.entities,Dict.get_insert,if_pos rfl]
    rfl
  · intro other
    rw [DefinitionsBuild.structuredValues,Dict.get_insert]
    split
    · next heq =>
      rw [← heq]
      exact hstructured
    · rfl
  · intro other hknown
    rw [Dict.get_insert]
    split
    · exact Option.some_ne_none _
    · exact hknown
  · cases hknown : Dict.get classCode build.devices with
    | none => exact Or.inr rfl
    | some _ =>
      left
      simp only [DefinitionsBuild.epcs,Option.isSome_some,if_true]
  · intro other hne
    rw [DefinitionsBuild.entities,Dict.get_insert,if_neg hne.symm]
    rfl
  · intro other hne
    rw [DefinitionsBuild.epcs]
    split
    · rfl
    · rw [Dict.get_insert,if_neg hne.symm]
      rfl
  · rwa [hentities] at hstate

open DefinitionsBuild in
theorem customized_step {item : Scalar × Option ClassEntry} {left : List (Scalar × Option ClassEntry)}
    (h : Customized original (item :: left) build) (hstep : applyClass build item = .ok build') :
    Customized original left build' := by
  obtain ⟨classCode,properties,state,hint,hclass,hloop⟩ := classStep_of_apply hstep
  obtain ⟨hnew,honce⟩ := List.nodup_cons.mp h.once
  rw [hint] at hnew
  obtain ⟨horiginal,hfresh⟩ := h.untouched classCode (by rw [List.map_cons,hint]; exact List.mem_cons_self)
  -- a class that is new has no entities yet, whatever EPCs were known for it
  have hbefore : OfClass classCode (build'.epcs classCode) (definitionsOf (build.entities classCode)) ∧
      ∀ entity ∈ definitionsOf (build.entities classCode), entity.epc ∈ build'.epcs classCode := by
    obtain hsame | hempty := hclass.epcs
    · rw [hsame]
      exact ⟨h.consistent.ofClass classCode,hfresh⟩
    · rw [DefinitionsBuild.entities,hempty]
      exact ⟨⟨.nil,List.forall_mem_nil _,List.forall_mem_nil _,List.forall_mem_nil _⟩,List.forall_mem_nil _⟩
  have hdefines := defines_of_properties hbefore.1 hbefore.2 hloop
  refine ⟨⟨?_,?_⟩,hclass.common.trans h.common,
    fun other => (hclass.structuredValues other).trans (h.structuredValues other),?_,honce,?_,?_⟩
  · rw [hclass.common,hclass.commonEpcs]
    exact h.consistent.common
  · intro other
    by_cases heq : other = classCode
    · rw [heq,hclass.entities]
      exact hdefines.ofClass
    · rw [hclass.otherEntities other heq,hclass.otherEpcs other heq]
      exact h.consistent.ofClass other
  · intro other hother
    obtain ⟨hknown,hepcs⟩ := h.known other hother
    refine ⟨hclass.known other hknown,?_⟩
    by_cases heq : other = classCode
    · subst heq
      exact (hclass.epcs.resolve_right hknown).trans hepcs
    · exact (hclass.otherEpcs other heq).trans hepcs
  · intro other
    by_cases heq : other = classCode
    · rw [heq,hclass.entities,← horiginal]
      exact hdefines.extended
    · rw [hclass.otherEntities other heq,hclass.otherEpcs other heq]
      exact h.extended other
  · intro other hother
    have hne : other ≠ classCode := by
      rintro rfl
      exact hnew hother
    rw [hclass.otherEntities other hne,hclass.otherEpcs other hne]
    exact h.untouched other (List.mem_cons_of_mem _ hother)

open DefinitionsBuild in
theorem customized_init {left : List (Scalar × Option ClassEntry)} (h : build.Sound) (honce : (left.map Prod.fst).Nodup) :
    Customized build left build where
  consistent := ⟨h.common,fun classCode => (h.apart classCode).ofClass⟩
  common := rfl
  structuredValues _ := rfl
  known _ hknown := ⟨hknown,rfl⟩
  once := honce
  extended _ := extended_refl _ _
  untouched classCode _ := ⟨rfl,fun entity hentity => ((h.apart classCode).scope entity hentity).1⟩

/-- The keys of the mapping are different. -/
theorem customized_of_apply {devices : List (Scalar × Option ClassEntry)} (hsound : build.Sound)
    (honce : (devices.map Prod.fst).Nodup) (h : applyCustomDefinitions build (some devices) = .ok build') :
    build.Customized [] build' := by
  refine foldlM_invariant (fun left => DefinitionsBuild.Customized build left) ?_ (customized_init hsound honce) h
  exact fun _ _ _ _ hinv hstep => customized_step hinv hstep

end Classes

end Pyhems.Generator

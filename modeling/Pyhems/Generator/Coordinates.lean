import Mathlib.Data.List.Pairwise
import Pyhems.Generator.Build

/-! Where an entity is found. A lookup names the EPC, the offset and the manufacturer; entities that are pairwise
separate are all found under their own. -/
namespace Pyhems.Generator
open Library Codec Fallible
open Get (Epc)

/-- A lookup for one of the entities may find the other. -/
def Clash (a b : EntityDefinition) : Prop :=
  a.epc = b.epc ∧ a.byteOffset = b.byteOffset ∧
    (a.manufacturerCode = b.manufacturerCode ∨ a.manufacturerCode = none ∨ b.manufacturerCode = none)

theorem Clash.symm {a b : EntityDefinition} (h : Clash a b) : Clash b a := by
  obtain ⟨hepc,hoffset,hsame | hfirst | hsecond⟩ := h
  · exact ⟨hepc.symm,hoffset.symm,.inl hsame.symm⟩
  · exact ⟨hepc.symm,hoffset.symm,.inr (.inr hfirst)⟩
  · exact ⟨hepc.symm,hoffset.symm,.inr (.inl hsecond)⟩

/-- No two of the entities clash. -/
def Separate (entities : List EntityDefinition) : Prop := entities.Pairwise fun a b => ¬ Clash a b

section Lookup
variable {entities : List EntityDefinition} {entity other : EntityDefinition}

theorem Separate.eq (h : Separate entities) (hentity : entity ∈ entities) (hother : other ∈ entities)
    (hclash : Clash entity other) : other = entity := by
  have hsymm : Std.Symm fun a b => ¬ Clash a b := ⟨fun _ _ hnot hclash => hnot hclash.symm⟩
  by_contra hne
  exact List.Pairwise.forall h hentity hother (Ne.symm hne) hclash

/-- An entity is found under its own coordinates, one for all manufacturers also by each of them. -/
theorem Separate.found {registry : Registry} {classCode : Nat} (h : Separate (registry.entities classCode))
    (hmem : entity ∈ registry.entities classCode) {manufacturerCode : Option Nat}
    (hscope : entity.manufacturerCode = none ∨ entity.manufacturerCode = manufacturerCode) :
    registry.entity classCode entity.epc manufacturerCode entity.byteOffset = some entity := by
  rw [Registry.entity]
  generalize hcandidates : (registry.entities classCode).filter (fun other =>
    decide (other.epc = entity.epc) && decide (other.byteOffset = entity.byteOffset)) = candidates
  have hcandidate : ∀ other, other ∈ candidates ↔ other ∈ registry.entities classCode ∧
      other.epc = entity.epc ∧ other.byteOffset = entity.byteOffset := by
    intro other
    rw [← hcandidates,List.mem_filter,Bool.and_eq_true,decide_eq_true_iff,decide_eq_true_iff]
  have hself : entity ∈ candidates := (hcandidate entity).mpr ⟨hmem,rfl,rfl⟩
  cases hcode : entity.manufacturerCode with
  | some code =>
    have hsame : manufacturerCode = some code := by
      rw [hcode] at hscope
      exact (hscope.resolve_left nofun).symm
    rw [hsame,FirstMatch.find?_unique hself (by simp [hcode])]
    · rfl
    · intro other hother heq
      obtain ⟨hin,hepc,hoffset⟩ := (hcandidate other).mp hother
      exact h.eq hmem hin ⟨hepc.symm,hoffset.symm,.inl (hcode.trans (by simpa [eq_comm] using heq))⟩
  | none =>
    have hfirst : candidates.find? (fun other => manufacturerCode.isSome &&
        decide (other.manufacturerCode = manufacturerCode)) = none := by
      rw [List.find?_eq_none]
      intro other hother heq
      obtain ⟨hin,hepc,hoffset⟩ := (hcandidate other).mp hother
      obtain ⟨hsome,hown⟩ := Bool.and_eq_true_iff.mp heq
      rw [h.eq hmem hin ⟨hepc.symm,hoffset.symm,.inr (.inl hcode)⟩,hcode] at hown
      rw [← of_decide_eq_true hown] at hsome
      cases hsome
    rw [hfirst,Option.none_or]
    apply FirstMatch.find?_unique hself (by rw [hcode]; rfl)
    intro other hother hnone
    obtain ⟨hin,hepc,hoffset⟩ := (hcandidate other).mp hother
    exact h.eq hmem hin ⟨hepc.symm,hoffset.symm,.inr (.inl hcode)⟩

theorem mem_of_entity {registry : Registry} {classCode : Nat} {epc : Epc} {manufacturerCode : Option Nat}
    {byteOffset : Nat} (h : registry.entity classCode epc manufacturerCode byteOffset = some entity) :
    entity ∈ registry.entities classCode ∧ entity.epc = epc ∧ entity.byteOffset = byteOffset ∧
      (entity.manufacturerCode = none ∨ entity.manufacturerCode = manufacturerCode) := by
  rw [Registry.entity,Option.or_eq_some_iff] at h
  have hcandidate : ∀ {p : EntityDefinition → Bool}, ((registry.entities classCode).filter fun entity =>
      decide (entity.epc = epc) && decide (entity.byteOffset = byteOffset)).find? p = some entity →
      entity ∈ registry.entities classCode ∧ entity.epc = epc ∧ entity.byteOffset = byteOffset ∧ p entity := by
    intro p hfound
    obtain ⟨hmem,hplace⟩ := List.mem_filter.mp (List.mem_of_find?_eq_some hfound)
    obtain ⟨hepc,hoffset⟩ := Bool.and_eq_true_iff.mp hplace
    exact ⟨hmem,of_decide_eq_true hepc,of_decide_eq_true hoffset,List.find?_some hfound⟩
  obtain hown | ⟨_,hshared⟩ := h
  · obtain ⟨hmem,hepc,hoffset,hscope⟩ := hcandidate hown
    exact ⟨hmem,hepc,hoffset,.inr (of_decide_eq_true (Bool.and_eq_true_iff.mp hscope).2)⟩
  · obtain ⟨hmem,hepc,hoffset,hscope⟩ := hcandidate hshared
    exact ⟨hmem,hepc,hoffset,.inl (Option.isNone_iff_eq_none.mp hscope)⟩

end Lookup

/-! ### The entities of a property -/

/-- Entities of one property, for all manufacturers, at different offsets. -/
structure OfProperty (epc : Epc) (entities : List EntityDefinition) : Prop where
  scope : ∀ entity ∈ entities, entity.epc = epc ∧ entity.manufacturerCode = none
  offsets : entities.Pairwise fun a b => a.byteOffset ≠ b.byteOffset

theorem ofProperty_singleton {epc : Epc} {entity : EntityDefinition} (hepc : entity.epc = epc)
    (hscope : entity.manufacturerCode = none) : OfProperty epc [entity] where
  scope := List.forall_mem_singleton.mpr ⟨hepc,hscope⟩
  offsets := List.pairwise_singleton _ _

theorem ofProperty_nil (epc : Epc) : OfProperty epc [] where
  scope := List.forall_mem_nil _
  offsets := .nil

theorem epc_of_parse {prop : PropertyData} {definitions : Definitions} {parsed : MraProperty}
    (h : parseMraProperty prop definitions = .ok parsed) : hexInt prop.epc = .ok parsed.epc := by
  obtain ⟨epc,hepc,h⟩ := bind_eq_ok.mp h
  rw [hepc]
  split at h
  · cases h
  · obtain ⟨type,_,h⟩ := bind_eq_ok.mp h
    -- the coefficients and the values are read only of a property of the type
    dsimp only at h
    split_ifs at h
    all_goals
      obtain ⟨coefficientEpcs,_,h⟩ := bind_eq_ok.mp h
      obtain ⟨numericValues,_,h⟩ := bind_eq_ok.mp h
      obtain ⟨states,_,h⟩ := bind_eq_ok.mp h
      cases h
      rfl

theorem entity_of_property {classCode : Nat} {prop : MraProperty} {entity : EntityDefinition}
    (h : buildEntityFromProperty classCode prop = .ok (some entity)) :
    ∃ enumValues, entity = entityOf classCode prop enumValues := by
  rw [buildEntityFromProperty] at h
  obtain ⟨_,h⟩ := ite_error_eq_ok.mp h
  obtain ⟨_,h⟩ := ite_none_eq_some.mp h
  obtain ⟨_,h⟩ := ite_none_eq_some.mp h
  obtain ⟨_,h⟩ := ite_none_eq_some.mp h
  obtain ⟨_,h⟩ := ite_error_eq_ok.mp h
  obtain ⟨_,h⟩ := ite_error_eq_ok.mp h
  obtain ⟨enumValues,_,h⟩ := bind_eq_ok.mp h
  cases h
  exact ⟨enumValues,rfl⟩

theorem pos_of_objectFieldByteSize {format : String} {byteCount : Nat}
    (h : objectFieldByteSize.lookup format = some byteCount) : 0 < byteCount := by
  have hall : ∀ e ∈ objectFieldByteSize, 0 < e.2 := by decide
  have hmem : (format,byteCount) ∈ objectFieldByteSize := by
    obtain ⟨l,r,heq,_⟩ := List.lookup_eq_some_iff.mp h
    rw [heq]
    exact List.mem_append_right _ List.mem_cons_self
  exact hall _ hmem

/-- Each field has an entity, which starts behind the one before it. -/
theorem buildFields_spec {classCode : Nat} {epc : Epc} {prop : PropertyData} {definitions : Definitions}
    {fields : List (Property Spec)} {byteOffset : Nat} {entities : List EntityDefinition}
    (h : buildFields classCode epc prop definitions fields byteOffset = .ok (some entities)) :
    OfProperty epc entities ∧ ∀ entity ∈ entities, byteOffset ≤ entity.byteOffset ∧
      ∃ field number format coefficientEpcs byteOffset,
        entity = fieldEntity classCode epc prop field number format coefficientEpcs byteOffset := by
  induction fields generalizing byteOffset entities with
  | nil =>
    cases h
    exact ⟨ofProperty_nil epc,List.forall_mem_nil _⟩
  | cons field fields ih =>
    obtain ⟨element,_,h⟩ := bind_eq_ok.mp h
    obtain ⟨resolved,_,h⟩ := bind_eq_ok.mp h
    split at h
    · cases h
    next number _ =>
    split at h
    · cases h
    next format _ =>
    split at h
    · cases h
    next byteCount hsize =>
    obtain ⟨coefficientEpcs,_,h⟩ := bind_eq_ok.mp h
    obtain ⟨rest,hrest,h⟩ := bind_eq_ok.mp h
    cases rest with
    | none => cases h
    | some rest =>
      cases h
      obtain ⟨hproperty,hoffsets⟩ := ih hrest
      have hpos := pos_of_objectFieldByteSize hsize
      refine ⟨⟨List.forall_mem_cons.mpr ⟨⟨rfl,rfl⟩,hproperty.scope⟩,List.pairwise_cons.mpr ⟨?_,hproperty.offsets⟩⟩,
        List.forall_mem_cons.mpr ⟨⟨le_rfl,_,_,_,_,_,rfl⟩,?_⟩⟩
      · intro entity hentity heq
        have hle := (hoffsets entity hentity).1
        rw [← heq] at hle
        exact absurd hle (by simp only [fieldEntity]; omega)
      · intro entity hentity
        obtain ⟨hle,hfield⟩ := hoffsets entity hentity
        exact ⟨(Nat.le_add_right _ _).trans hle,hfield⟩

theorem entities_of_object {classCode : Nat} {epc : Epc} {prop : PropertyData} {definitions : Definitions}
    {atomicPairedEpcs : List Epc} {entities : List EntityDefinition}
    (h : buildEntitiesFromObjectProperty classCode epc prop definitions atomicPairedEpcs = .ok (some entities)) :
    OfProperty epc entities ∧ ∀ entity ∈ entities, ∃ field number format coefficientEpcs byteOffset,
      entity = fieldEntity classCode epc prop field number format coefficientEpcs byteOffset := by
  obtain ⟨_,h⟩ := ite_none_eq_some.mp h
  obtain ⟨dataSpec,_,h⟩ := bind_eq_ok.mp h
  obtain ⟨_,h⟩ := ite_none_eq_some.mp h
  obtain ⟨_,h⟩ := ite_error_eq_ok.mp h
  obtain ⟨properties,_,h⟩ := bind_eq_ok.mp h
  obtain ⟨hproperty,hfields⟩ := buildFields_spec h
  exact ⟨hproperty,fun entity hentity => (hfields entity hentity).2⟩

/-! ### What becomes of a property -/

/-- What a property of a class, of the given EPC, becomes. -/
inductive Sources.Becomes (sources : Sources) (classCode : Nat) (common : List Epc) (prop : MraEntry) (epc : Epc) :
    Built → Prop
  | temporal {entity : EntityDefinition} {used : List (Nat × Epc)}
      (h : sources.temporalEntity classCode prop.toPropertyData = .ok (some entity,used)) :
      Becomes sources classCode common prop epc {entities := [applyRole sources.roles classCode entity], used}
  | nothing {used : List (Nat × Epc)}
      (h : sources.temporalEntity classCode prop.toPropertyData = .ok (none,used)) :
      Becomes sources classCode common prop epc {used}
  | object {atomicPairedEpcs : List Epc} {entities : List EntityDefinition} {used : List (Nat × Epc)}
      (h : sources.temporalEntity classCode prop.toPropertyData = .ok (none,used)) (hcommon : epc ∉ common)
      (hentities : buildEntitiesFromObjectProperty classCode epc prop.toPropertyData sources.definitions
        atomicPairedEpcs = .ok (some entities)) :
      Becomes sources classCode common prop epc
        {entities := entities.map (applyRole sources.roles classCode), used}
  | flat {parsed : MraProperty} {entity : EntityDefinition} {used : List (Nat × Epc)}
      (h : sources.temporalEntity classCode prop.toPropertyData = .ok (none,used)) (hcommon : epc ∉ common)
      (hparsed : parseMraProperty prop.toPropertyData sources.definitions = .ok parsed)
      (hentity : buildEntityFromProperty classCode parsed = .ok (some entity)) :
      Becomes sources classCode common prop epc {entities := [applyRole sources.roles classCode entity], used}
  | tree {value : PropertyValueDefinition} {used : List (Nat × Epc)}
      (h : sources.temporalEntity classCode prop.toPropertyData = .ok (none,used)) (hcommon : epc ∉ common) :
      Becomes sources classCode common prop epc {structured := some (epc,value), used}

theorem becomes_of_deviceProperty {sources : Sources} {classCode : Nat} {common atomicPairedEpcs : List Epc}
    {prop : MraEntry} {built : Built}
    (h : sources.deviceProperty classCode common atomicPairedEpcs prop = .ok built) :
    ∃ epc, hexInt prop.epc = .ok epc ∧ sources.Becomes classCode common prop epc built := by
  obtain ⟨epc,hepc,h⟩ := bind_eq_ok.mp h
  refine ⟨epc,hepc,?_⟩
  obtain ⟨⟨entity,used⟩,htemporal,h⟩ := bind_eq_ok.mp h
  cases entity with
  | some entity =>
    cases h
    exact .temporal htemporal
  | none =>
    obtain ⟨alternative,_,h⟩ := bind_eq_ok.mp h
    split at h
    · cases h
      exact .nothing htemporal
    split at h
    · cases h
      exact .nothing htemporal
    next hcommon =>
    obtain ⟨entities,hentities,h⟩ := bind_eq_ok.mp h
    cases entities with
    | some entities =>
      cases h
      exact .object htemporal hcommon hentities
    | none =>
      obtain ⟨parsed,hparsed,h⟩ := bind_eq_ok.mp h
      obtain ⟨entity,hentity,h⟩ := bind_eq_ok.mp h
      cases entity with
      | some entity =>
        cases h
        exact .flat htemporal hcommon hparsed hentity
      | none =>
        obtain ⟨structured,_,h⟩ := bind_eq_ok.mp h
        split at h
        · obtain ⟨value,_,h⟩ := bind_eq_ok.mp h
          cases h
          exact .tree htemporal hcommon
        · cases h
          exact .nothing htemporal

end Pyhems.Generator

import Pyhems.Generator.Pipeline

/-! The table of temporal kinds. A build that succeeds has used every entry of it, and found one for every time, so
that the table tells the times of the files and nothing else. -/
namespace Pyhems.Generator
open Library Codec Fallible
open Get (Epc)

/-- One of the options of the data is temporal, and it is a time. -/
def IsTime (definitions : Definitions) (data : Spec) : Prop :=
  ∃ spec options value, resolveRef data definitions = .ok spec ∧
    (spec.oneOf.getD [spec]).mapM (fun option => resolveRef option definitions) = .ok options ∧
      options.filter isTemporal = [value] ∧ value.type = some .time

/-- The kind of an entity is that of the table, unless its type tells it. -/
def Classified (kinds : TemporalKinds) (classCode : Nat) (entity : EntityDefinition) : Prop :=
  ∀ temporal, entity.temporal = some temporal →
    temporal.kind = .date ∨ temporal.kind = .datetime ∨ Dict.get (classCode,entity.epc) kinds = some temporal.kind

/-- What a property takes from the table and makes of it. -/
structure TakesFrom (sources : Sources) (classCode : Nat) (prop : MraEntry) (used : List (Nat × Epc))
    (entities : List EntityDefinition) : Prop where
  taken : ∀ key, key ∈ used ↔
    IsTime sources.definitions prop.data ∧ ∃ epc, hexInt prop.epc = .ok epc ∧ key = (classCode,epc)
  known : ∀ key ∈ used, Dict.get key sources.kinds ≠ none
  classified : ∀ entity ∈ entities, Classified sources.kinds classCode entity

section Properties
variable {sources : Sources} {classCode : Nat} {prop : MraEntry} {used : List (Nat × Epc)}

theorem temporalKind_eq_ok {epc : Epc} {kinds : TemporalKinds} {type : Option DataType} {kind : TemporalKind}
    (h : temporalKind classCode epc kinds type = .ok (kind,used)) :
    type = some .time ∧ used = [(classCode,epc)] ∧ Dict.get (classCode,epc) kinds = some kind ∨
      type ≠ some .time ∧ used = [] ∧ (kind = .date ∨ kind = .datetime) := by
  unfold temporalKind at h
  split at h
  · next htime =>
    split at h
    · next kind' hkind =>
      cases h
      exact Or.inl ⟨htime,rfl,hkind⟩
    · cases h
  · next hother =>
    cases h
    refine Or.inr ⟨hother,rfl,?_⟩
    split
    · exact Or.inl rfl
    · exact Or.inr rfl

theorem takesFrom_temporalEntity {entity : Option EntityDefinition}
    (h : sources.temporalEntity classCode prop.toPropertyData = .ok (entity,used)) :
    TakesFrom sources classCode prop used entity.toList := by
  obtain ⟨parsed,hparsed,h⟩ := bind_eq_ok.mp h
  have hepc := epc_of_parse hparsed
  obtain ⟨spec,hspec,h⟩ := bind_eq_ok.mp h
  obtain ⟨options,hoptions,h⟩ := bind_eq_ok.mp h
  have htime : IsTime sources.definitions prop.data ↔
      ∃ value, options.filter isTemporal = [value] ∧ value.type = some .time := by
    constructor
    · rintro ⟨spec',options',value,hspec',hoptions',hvalue⟩
      cases hspec.symm.trans hspec'
      cases hoptions.symm.trans hoptions'
      exact ⟨value,hvalue⟩
    · exact fun ⟨value,hvalue⟩ => ⟨spec,options,value,hspec,hoptions,hvalue⟩
  have hkey : ∀ key : Nat × Epc, (∃ epc, hexInt prop.epc = .ok epc ∧ key = (classCode,epc)) ↔
      key = (classCode,parsed.epc) := by
    intro key
    constructor
    · rintro ⟨epc,hother,rfl⟩
      cases hepc.symm.trans hother
      rfl
    · exact fun heq => ⟨parsed.epc,hepc,heq⟩
  split at h
  · next value hfilter =>
    obtain ⟨⟨kind,used'⟩,hkind,h⟩ := bind_eq_ok.mp h
    obtain ⟨temporal,htemporal,h⟩ := bind_eq_ok.mp h
    obtain ⟨states,_,h⟩ := bind_eq_ok.mp h
    have hresult : used = used' ∧ ∀ built ∈ entity.toList, built.temporal = some temporal ∧ built.epc = parsed.epc := by
      cases states with
      | none =>
        cases h
        exact ⟨rfl,List.forall_mem_nil _⟩
      | some states =>
        obtain ⟨_,h⟩ := ite_error_eq_ok.mp h
        cases h
        exact ⟨rfl,List.forall_mem_singleton.mpr ⟨rfl,rfl⟩⟩
    obtain ⟨rfl,hbuilt⟩ := hresult
    have hone : IsTime sources.definitions prop.data ↔ value.type = some .time := by
      rw [htime,hfilter]
      exact ⟨fun ⟨_,heq,htype⟩ => by cases heq; exact htype,fun htype => ⟨value,rfl,htype⟩⟩
    obtain ⟨htype,rfl,hget⟩ | ⟨htype,rfl,hdates⟩ := temporalKind_eq_ok hkind
    · refine ⟨?_,?_,?_⟩
      · intro key
        rw [hone,hkey,List.mem_singleton]
        exact ⟨fun heq => ⟨htype,heq⟩,And.right⟩
      · exact List.forall_mem_singleton.mpr (by rw [hget]; exact Option.some_ne_none kind)
      · intro built hmem other hother
        obtain ⟨hsame,hplace⟩ := hbuilt built hmem
        cases hsame.symm.trans hother
        rw [hplace,(size_of_temporalDefinition htemporal).1]
        exact Or.inr (Or.inr hget)
    · refine ⟨?_,List.forall_mem_nil _,?_⟩
      · intro key
        rw [hone,List.mem_nil_iff,false_iff]
        exact fun hboth => htype hboth.1
      · intro built hmem other hother
        cases (hbuilt built hmem).1.symm.trans hother
        rw [(size_of_temporalDefinition htemporal).1]
        exact hdates.imp id Or.inl
  · next hother =>
    cases h
    refine ⟨?_,List.forall_mem_nil _,List.forall_mem_nil _⟩
    intro key
    rw [htime,List.mem_nil_iff,false_iff]
    rintro ⟨⟨value,hfilter,_⟩,_⟩
    exact hother value hfilter

/-- An entity that is not temporal has nothing of the table. -/
theorem takesFrom_plain (h : TakesFrom sources classCode prop used []) {entities : List EntityDefinition}
    (hplain : ∀ entity ∈ entities, entity.temporal = none) : TakesFrom sources classCode prop used entities where
  taken := h.taken
  known := h.known
  classified entity hentity temporal htemporal := by
    rw [hplain entity hentity] at htemporal
    cases htemporal

theorem temporal_of_flat {parsed : MraProperty} {entity : EntityDefinition}
    (h : buildEntityFromProperty classCode parsed = .ok (some entity)) : entity.temporal = none := by
  obtain ⟨enumValues,rfl⟩ := entity_of_property h
  rfl

theorem temporal_of_object {epc : Epc} {data : PropertyData} {definitions : Definitions} {atomicPairedEpcs : List Epc}
    {entities : List EntityDefinition}
    (h : buildEntitiesFromObjectProperty classCode epc data definitions atomicPairedEpcs = .ok (some entities)) :
    ∀ entity ∈ entities, entity.temporal = none := by
  intro entity hentity
  obtain ⟨field,number,format,coefficientEpcs,byteOffset,rfl⟩ := (entities_of_object h).2 entity hentity
  rfl

theorem takesFrom_commonProperty {built : Built} (h : sources.commonProperty prop = .ok built) :
    TakesFrom sources 0 prop built.used built.definitions := by
  obtain ⟨parsed,_,h⟩ := bind_eq_ok.mp h
  obtain ⟨⟨entity,used⟩,htemporal,h⟩ := bind_eq_ok.mp h
  have htakes := takesFrom_temporalEntity htemporal
  cases entity with
  | some entity =>
    cases h
    exact htakes
  | none =>
    obtain ⟨alternative,_,h⟩ := bind_eq_ok.mp h
    split at h
    · cases h
      exact htakes
    · obtain ⟨entity,hentity,h⟩ := bind_eq_ok.mp h
      cases h
      cases entity with
      | none => exact htakes
      | some entity => exact takesFrom_plain htakes (List.forall_mem_singleton.mpr (temporal_of_flat hentity))

theorem takesFrom_deviceProperty {built : Built} {common atomicPairedEpcs : List Epc}
    (h : sources.deviceProperty classCode common atomicPairedEpcs prop = .ok built) :
    TakesFrom sources classCode prop built.used built.definitions := by
  obtain ⟨epc,_,hbecomes⟩ := becomes_of_deviceProperty h
  cases hbecomes with
  | temporal htemporal | nothing htemporal | tree htemporal => exact takesFrom_temporalEntity htemporal
  | object htemporal _ hentities =>
    refine takesFrom_plain (takesFrom_temporalEntity htemporal) ?_
    intro entity hentity
    obtain ⟨built,hbuilt,rfl⟩ := List.mem_map.mp hentity
    obtain ⟨source,hsource,rfl⟩ := List.mem_map.mp hbuilt
    exact temporal_of_object hentities source hsource
  | flat htemporal _ _ hentity =>
    exact takesFrom_plain (takesFrom_temporalEntity htemporal)
      (List.forall_mem_singleton.mpr (temporal_of_flat hentity))

end Properties

/-! ### The table -/

/-- What the table holds of the entries that were loaded. -/
structure Loaded (entries : List TemporalEntry) (kinds : TemporalKinds) : Prop where
  once : (entries.map TemporalEntry.key).Nodup
  kind : ∀ entry ∈ entries, ∃ kind, temporalKindOf entry.kind = .ok kind ∧ Dict.get entry.key kinds = some kind
  entry : ∀ key kind, Dict.get key kinds = some kind → ∃ entry ∈ entries, entry.key = key

theorem Loaded.get_ne_none {entries : List TemporalEntry} {kinds : TemporalKinds} (h : Loaded entries kinds)
    {key : Nat × Epc} : Dict.get key kinds ≠ none ↔ ∃ entry ∈ entries, entry.key = key := by
  constructor
  · intro hne
    obtain ⟨kind,hkind⟩ := Option.ne_none_iff_exists'.mp hne
    exact h.entry key kind hkind
  · rintro ⟨entry,hentry,rfl⟩
    obtain ⟨kind,_,hkind⟩ := h.kind entry hentry
    rw [hkind]
    exact Option.some_ne_none kind

theorem loaded_step {entries : List TemporalEntry} {entry : TemporalEntry} {kinds kinds' : TemporalKinds}
    (h : Loaded entries kinds) (hstep : loadTemporalKind kinds entry = .ok kinds') :
    Loaded (entries ++ [entry]) kinds' := by
  obtain ⟨kind,hkind,hstep⟩ := bind_eq_ok.mp hstep
  obtain ⟨hvalid,hstep⟩ := ite_error_eq_ok.mp hstep
  cases hstep
  have hnew : ∀ other ∈ entries, other.key ≠ entry.key := by
    intro other hother heq
    have hknown := h.get_ne_none.mpr ⟨other,hother,heq⟩
    exact hvalid (Or.inl (Option.isSome_iff_ne_none.mpr hknown))
  refine ⟨?_,?_,?_⟩
  · rw [List.map_append]
    refine h.once.append (List.nodup_singleton _) (List.disjoint_singleton.mpr ?_)
    intro hmem
    obtain ⟨other,hother,heq⟩ := List.mem_map.mp hmem
    exact hnew other hother heq
  · refine List.forall_mem_append.mpr ⟨?_,List.forall_mem_singleton.mpr ⟨kind,hkind,?_⟩⟩
    · intro other hother
      obtain ⟨kind',hkind',hget⟩ := h.kind other hother
      refine ⟨kind',hkind',?_⟩
      rw [Dict.get_insert,if_neg (hnew other hother).symm]
      exact hget
    · rw [Dict.get_insert,if_pos rfl]
  · intro key kind' hget
    rw [Dict.get_insert] at hget
    split at hget
    · next heq => exact ⟨entry,List.mem_append_right _ (List.mem_singleton.mpr rfl),heq⟩
    · obtain ⟨other,hother,heq⟩ := h.entry key kind' hget
      exact ⟨other,List.mem_append_left _ hother,heq⟩

theorem loaded_of_load {entries : List TemporalEntry} {kinds : TemporalKinds}
    (h : loadTemporalKinds entries = .ok kinds) : Loaded entries kinds := by
  have hinv := foldlM_invariant (fun rest kinds => ∃ done, done ++ rest = entries ∧ Loaded done kinds) ?_ ?_ h
  · obtain ⟨done,hall,hloaded⟩ := hinv
    rw [List.append_nil] at hall
    exact hall ▸ hloaded
  · rintro entry rest kinds kinds' ⟨done,hall,hloaded⟩ hstep
    exact ⟨done ++ [entry],by rw [List.append_assoc]; exact hall,loaded_step hloaded hstep⟩
  · exact ⟨[],rfl,List.nodup_nil,List.forall_mem_nil _,fun _ _ hget => by cases hget⟩

/-! ### The properties of a class -/

/-- The property is a time of a class, under the key. -/
def TimeAt (definitions : Definitions) (classCode : Nat) (prop : MraEntry) (key : Nat × Epc) : Prop :=
  prop.latest = true ∧ IsTime definitions prop.data ∧ ∃ epc, hexInt prop.epc = .ok epc ∧ key = (classCode,epc)

/-- What the properties of a class take from the table and make of it. -/
structure TakesAll (sources : Sources) (classCode : Nat) (properties : List MraEntry) (used : List (Nat × Epc))
    (entities : List EntityDefinition) : Prop where
  taken : ∀ key, key ∈ used ↔ ∃ prop ∈ properties, TimeAt sources.definitions classCode prop key
  known : ∀ key ∈ used, Dict.get key sources.kinds ≠ none
  classified : ∀ entity ∈ entities, Classified sources.kinds classCode entity

section Classes
variable {sources : Sources} {classCode : Nat}

theorem takesAll_of_properties {properties : List MraEntry} {built : List Built}
    (h : List.Forall₂ (fun prop built => TakesFrom sources classCode prop built.used built.definitions)
      (properties.filter MraEntry.latest) built) :
    TakesAll sources classCode properties (built.flatMap Built.used) (definitionsOf (built.flatMap Built.entities)) := by
  have hat : ∀ key, (∃ prop ∈ properties, TimeAt sources.definitions classCode prop key) ↔
      ∃ prop ∈ properties.filter MraEntry.latest, IsTime sources.definitions prop.data ∧
        ∃ epc, hexInt prop.epc = .ok epc ∧ key = (classCode,epc) := by
    intro key
    simp only [TimeAt,List.mem_filter,and_assoc]
  simp only [definitionsOf,List.map_flatMap]
  refine ⟨fun key => ?_,?_,?_⟩
  · rw [hat]
    generalize properties.filter MraEntry.latest = latest at h
    induction h with
    | nil => simp
    | cons hfirst _ ih =>
      rw [List.flatMap_cons,List.mem_append,hfirst.taken,ih,List.exists_mem_cons_iff]
  · intro key hkey
    obtain ⟨one,hone,hkey⟩ := List.mem_flatMap.mp hkey
    exact forall_mem_of_forall₂ (P := fun _ => True)
      (Q := fun built => ∀ key ∈ built.used, Dict.get key sources.kinds ≠ none)
      h (fun _ _ => trivial) (fun _ _ _ htakes => htakes.known) one hone key hkey
  · intro entity hentity
    obtain ⟨one,hone,hentity⟩ := List.mem_flatMap.mp hentity
    exact forall_mem_of_forall₂ (P := fun _ => True)
      (Q := fun built => ∀ entity ∈ built.definitions, Classified sources.kinds classCode entity)
      h (fun _ _ => trivial) (fun _ _ _ htakes => htakes.classified) one hone entity hentity

theorem takesAll_of_deviceBuild {common : List Epc} {file : DeviceFile}
    {built : DeviceBuild × List Epc × List (Nat × Epc)} (h : sources.deviceBuild common file = .ok built) :
    TakesAll sources file.classCode file.elProperties built.2.2 (definitionsOf built.1.entities) := by
  obtain ⟨_,_,properties,_,hproperties,hentities,_,hread⟩ := Sources.read_of_deviceBuild h
  rw [hentities,hread]
  exact takesAll_of_properties ((mapM_eq_ok.mp hproperties).imp fun _ _ hbuilt => takesFrom_deviceProperty hbuilt)

end Classes

/-! ### The files -/

namespace Inputs
variable {inputs : Inputs} {generated build : DefinitionsBuild}

def HasTime (inputs : Inputs) (key : Nat × Epc) : Prop :=
  (∃ prop ∈ inputs.superclass, TimeAt inputs.definitions 0 prop key) ∨
    ∃ file ∈ inputs.files, ∃ prop ∈ file.elProperties, TimeAt inputs.definitions file.classCode prop key

/-- The table has one entry for each time of the files, and no others. -/
theorem times_exact (h : inputs.generate = .ok generated) :
    (inputs.temporalKinds.map TemporalEntry.key).Nodup ∧
      ∀ key, inputs.HasTime key ↔ ∃ entry ∈ inputs.temporalKinds, entry.key = key := by
  obtain ⟨kinds,commonBuilt,built,hkinds,_,hcommonBuilt,_,hbuilt,hused,_⟩ := read_of_generate h
  have hloaded := loaded_of_load hkinds
  have hcommon := takesAll_of_properties
    ((mapM_eq_ok.mp hcommonBuilt).imp fun _ _ hone => takesFrom_commonProperty hone)
  have hfiles := (mapM_eq_ok.mp hbuilt).imp fun _ _ hone => takesAll_of_deviceBuild hone
  refine ⟨hloaded.once,fun key => ?_⟩
  rw [← hloaded.get_ne_none]
  constructor
  · rintro (htime | ⟨file,hfile,htime⟩)
    · exact hcommon.known key ((hcommon.taken key).mpr htime)
    · obtain ⟨result,_,htakes⟩ := exists_mem_zip hfiles hfile
      exact htakes.known key ((htakes.taken key).mpr htime)
  · intro hknown
    have hkey : key ∈ kinds.map Prod.fst := by
      by_contra hmissing
      exact hknown (Dict.get_eq_none hmissing)
    obtain hused | hused := List.mem_append.mp (hused key hkey)
    · exact Or.inl ((hcommon.taken key).mp hused)
    · obtain ⟨result,hresult,hkey⟩ := List.mem_flatMap.mp hused
      obtain ⟨file,hfile,htakes⟩ := exists_mem_zip hfiles.flip hresult
      exact Or.inr ⟨file,(List.of_mem_zip hfile).2,(htakes.taken key).mp hkey⟩

theorem classified_of_generate (h : inputs.generate = .ok generated) : ∃ kinds, Loaded inputs.temporalKinds kinds ∧
    (∀ entity ∈ definitionsOf generated.common, Classified kinds 0 entity) ∧
      ∀ classCode, ∀ entity ∈ definitionsOf (generated.entities classCode), Classified kinds classCode entity := by
  obtain ⟨kinds,_,_,hkinds,_,hcommonBuilt,hentities,_⟩ := read_of_generate h
  have hcommon := takesAll_of_properties
    ((mapM_eq_ok.mp hcommonBuilt).imp fun _ _ hone => takesFrom_commonProperty hone)
  refine ⟨kinds,loaded_of_load hkinds,?_,fun classCode => ?_⟩
  · rw [hentities]
    exact hcommon.classified
  · cases hdevice : Dict.get classCode generated.devices with
    | none =>
      rw [(written_of_none hdevice).2]
      exact List.forall_mem_nil _
    | some device =>
      obtain ⟨kinds',hkinds',file,_,result,rfl,rfl,hresult,_⟩ := file_of_device h hdevice
      cases hkinds.symm.trans hkinds'
      rw [DefinitionsBuild.entities,hdevice]
      exact (takesAll_of_deviceBuild hresult).classified

/-- The table says under a key what the meaning is, unless it is a date or a date with a time. -/
def OfTable (entries : List TemporalEntry) (key : Nat × Epc) (kind : TemporalKind) : Prop :=
  kind = .date ∨ kind = .datetime ∨ ∃ entry ∈ entries, entry.key = key ∧ temporalKindOf entry.kind = .ok kind

theorem ofTable_of_classified {kinds : TemporalKinds} (hloaded : Loaded inputs.temporalKinds kinds) {source : Nat}
    {entity : EntityDefinition} (hsource : Classified kinds source entity) {temporal : TemporalDefinition}
    (htemporal : entity.temporal = some temporal) :
    OfTable inputs.temporalKinds (source,entity.epc) temporal.kind := by
  obtain hdate | hdatetime | hget := hsource temporal htemporal
  · exact Or.inl hdate
  · exact Or.inr (Or.inl hdatetime)
  · obtain ⟨entry,hentry,hkey⟩ := hloaded.entry _ _ hget
    obtain ⟨kind,hkind,hsame⟩ := hloaded.kind entry hentry
    rw [hkey,hget] at hsame
    cases hsame
    exact Or.inr (Or.inr ⟨entry,hentry,hkey,hkind⟩)

/-- The entities that a class has of its own are classified under it. -/
theorem classified_own {kinds : TemporalKinds} (hcustomized : generated.Customized [] build) {classCode : Nat}
    (hown : ∀ entity ∈ definitionsOf (generated.entities classCode), Classified kinds classCode entity)
    {entity : EntityDefinition} (hmem : entity ∈ definitionsOf (build.entities classCode)) :
    Classified kinds classCode entity := by
  obtain ⟨patched,defined,hall,hpatched,hdefined⟩ := hcustomized.extended classCode
  by_cases hepc : entity.epc ∈ build.epcs classCode
  · rw [hall] at hmem
    obtain hmem | hmem := List.mem_append.mp hmem
    · refine forall_mem_of_forall₂ (Q := Classified kinds classCode) hpatched hown ?_ entity hmem
      intro before after hbefore hrel other hother
      rw [hrel.epc]
      exact hbefore other (hrel.temporal.symm.trans hother)
    · exact absurd hepc (hdefined entity hmem)
  · intro other hother
    have hnone := ((hcustomized.consistent.ofClass classCode).defined entity hmem hepc).temporal
    rw [hnone] at hother
    cases hother

/-- The meaning of a time in the registry is the one that the table has for it: of the class, if the entity is the
class's own, and of all classes if it is shared. -/
theorem kind_of_table (h : inputs.WellFormed) (hbuild : inputs.build = .ok build) {classCode : Nat}
    {entity : EntityDefinition} (hentity : entity ∈ build.registry.entities classCode) {temporal : TemporalDefinition}
    (htemporal : entity.temporal = some temporal) :
    (entity ∈ definitionsOf (build.entities classCode) →
      OfTable inputs.temporalKinds (classCode,entity.epc) temporal.kind) ∧
    (entity ∉ definitionsOf (build.entities classCode) →
      OfTable inputs.temporalKinds (0,entity.epc) temporal.kind) := by
  obtain ⟨generated,hgenerate,_,hcustomized,_⟩ := customized_of_build h hbuild
  obtain ⟨kinds,hloaded,hcommon,hown⟩ := classified_of_generate hgenerate
  constructor
  · exact fun hmem => ofTable_of_classified hloaded (classified_own hcustomized (hown classCode) hmem) htemporal
  · intro hnot
    obtain ⟨_,hshared,_⟩ := (mem_registry.mp hentity).resolve_left hnot
    rw [hcustomized.common] at hshared
    exact ofTable_of_classified hloaded (hcommon entity hshared) htemporal

theorem times_exact_timer : airConditioner.HasTime (0x0130,0x94) :=
  ((times_exact airConditioner_generate).2 (0x0130,0x94)).mpr
    ⟨⟨0x0130,0x94,"duration"⟩,List.mem_cons_of_mem _ List.mem_cons_self,rfl⟩

theorem kind_of_table_timer : ∃ entry ∈ airConditioner.temporalKinds,
    entry.key = (0x0130,0x94) ∧ temporalKindOf entry.kind = .ok .duration := by
  have hkind := kind_of_table airConditioner_wellFormed airConditioner_build timerEntity_mem rfl
  obtain hdate | hdatetime | hentry := hkind.1 (by decide +kernel)
  · cases hdate
  · cases hdatetime
  · exact hentry

/-- The clock of the air conditioner is one that all classes have. -/
example : ∃ entity ∈ airConditionerBuild.registry.entities 0x0130,
    entity ∉ definitionsOf (airConditionerBuild.entities 0x0130) ∧ entity.epc = 0x97 ∧
      (entity.temporal.map TemporalDefinition.kind) = some .clock := by decide +kernel

end Inputs

end Pyhems.Generator

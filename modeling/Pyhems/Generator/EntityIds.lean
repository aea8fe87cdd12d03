import Pyhems.Generator.Pipeline
import Pyhems.Generator.RoleKeys

/-! The ids of entities. An id spells out the class and the coordinates, and no two entities of the registry share
one. -/
namespace Pyhems.Generator
open Library Codec Fallible
open Get (Epc)

/-! ### Parts of a text -/

section Parts
variable {α : Type} {sep : α} {xs ys s t : List α}

/-- The text is empty or goes on with the separator. -/
def Stops (sep : α) (s : List α) : Prop := ∀ a ∈ s.head?, a = sep

theorem stops_nil : Stops sep [] := fun _ ha => by cases ha

theorem stops_cons : Stops sep (sep :: s) := fun _ ha => by cases ha; rfl

theorem split_at_sep [DecidableEq α] (hxs : sep ∉ xs) (hys : sep ∉ ys) (hs : Stops sep s) (ht : Stops sep t)
    (h : xs ++ s = ys ++ t) : xs = ys ∧ s = t := by
  have hleft : ∀ {l rest : List α}, sep ∉ l → Stops sep rest →
      (l ++ rest).takeWhile (fun a => decide (a ≠ sep)) = l := by
    intro l rest hl hrest
    rw [List.takeWhile_append_of_pos]
    · cases rest with
      | nil => exact List.append_nil l
      | cons a rest =>
        rw [List.takeWhile_cons_of_neg,List.append_nil]
        simp [hrest a rfl]
    · exact fun a ha => decide_eq_true fun heq => hl (heq ▸ ha)
  have hsame : xs = ys := by rw [← hleft hxs hs,h,hleft hys ht]
  subst hsame
  exact ⟨rfl,List.append_cancel_left h⟩

end Parts

/-! ### Digits -/

theorem toUpper_hexLower (width n : Nat) :
    (hexLower width n).toList.map Char.toUpper =
      List.replicate (width-(Nat.toDigits 16 n).length) '0' ++ (Nat.toDigits 16 n).map Char.toUpper := by
  rw [hexLower,String.toList_ofList,List.map_append,List.map_replicate]
  rfl

/-- The digits that are written are those of the number. -/
theorem parseDigits_hexLower (width n : Nat) :
    parseDigits 16 0 ((hexLower width n).toList.map Char.toUpper) = some n := by
  rw [toUpper_hexLower,parseDigits_zeros]
  exact (digits_upper n).2

theorem hexLower_inj {width m n : Nat} (h : (hexLower width m).toList = (hexLower width n).toList) : m = n := by
  have hparse := parseDigits_hexLower width m
  rw [h,parseDigits_hexLower] at hparse
  exact (Option.some.inj hparse).symm

theorem underscore_notMem (width n : Nat) : '_' ∉ (hexLower width n).toList := by
  intro hmem
  have hupper := List.mem_map_of_mem (f := Char.toUpper) hmem
  rw [toUpper_hexLower] at hupper
  obtain hzero | hdigit := List.mem_append.mp hupper
  · exact absurd (List.eq_of_mem_replicate hzero) (by decide)
  · have hsome := (digits_upper n).1 _ hdigit
    exact absurd hsome (by decide)

/-! ### Ids -/

/-- What an id says of an offset. -/
def offsetSuffix (byteOffset : Nat) : List Char :=
  if byteOffset = 0 then [] else '_' :: (hexLower 2 byteOffset).toList

/-- What an id says behind the EPC. -/
def idSuffix (manufacturerCode : Option Nat) (byteOffset : Nat) : List Char :=
  (manufacturerCode.elim [] fun code => '_' :: (hexLower 6 code).toList) ++ offsetSuffix byteOffset

theorem toList_entityId (classCode : Nat) (epc : Epc) (manufacturerCode : Option Nat) (byteOffset : Nat) :
    (entityId classCode epc manufacturerCode byteOffset).toList = "class".toList ++ '_' ::
      ((hexLower 4 classCode).toList ++ '_' :: ("epc".toList ++ '_' ::
        ((hexLower 2 epc).toList ++ idSuffix manufacturerCode byteOffset))) := by
  have hclass : "class_".toList = "class".toList ++ ['_'] := rfl
  have hepc : "_epc_".toList = '_' :: ("epc".toList ++ ['_']) := rfl
  have hmanufacturer : (manufacturerCode.elim "" fun code => s!"_{hexLower 6 code}").toList =
      manufacturerCode.elim [] fun code => '_' :: (hexLower 6 code).toList := by
    cases manufacturerCode with
    | none => rfl
    | some code => exact String.toList_append
  have hoffset : (if byteOffset = 0 then "" else s!"_{hexLower 2 byteOffset}").toList = offsetSuffix byteOffset := by
    rw [offsetSuffix]
    split
    · rfl
    · exact String.toList_append
  rw [entityId,String.toList_append,String.toList_append,hmanufacturer,hoffset,idSuffix]
  simp only [String.toList_append,toString,hclass,hepc,List.append_assoc,List.cons_append,List.nil_append]

theorem stops_offsetSuffix (byteOffset : Nat) : Stops '_' (offsetSuffix byteOffset) := by
  rw [offsetSuffix]
  split
  · exact stops_nil
  · exact stops_cons

theorem offsetSuffix_inj {a b : Nat} (h : offsetSuffix a = offsetSuffix b) : a = b := by
  unfold offsetSuffix at h
  split at h <;> split at h
  · next ha hb => rw [ha,hb]
  · cases h
  · cases h
  · exact hexLower_inj (List.tail_eq_of_cons_eq h)

theorem stops_idSuffix (manufacturerCode : Option Nat) (byteOffset : Nat) :
    Stops '_' (idSuffix manufacturerCode byteOffset) := by
  cases manufacturerCode with
  | none => exact stops_offsetSuffix byteOffset
  | some code => exact stops_cons

/-- A manufacturer is told from an offset only if both ids have one or none has. -/
theorem idSuffix_inj {m m' : Option Nat} {a b : Nat} (hscope : m = none ↔ m' = none) (h : idSuffix m a = idSuffix m' b) :
    m = m' ∧ a = b := by
  cases m with
  | none =>
    obtain rfl := hscope.mp rfl
    exact ⟨rfl,offsetSuffix_inj h⟩
  | some code =>
    cases m' with
    | none => exact absurd (hscope.mpr rfl) (Option.some_ne_none code)
    | some other =>
      obtain ⟨hcode,hoffset⟩ := split_at_sep (underscore_notMem 6 code) (underscore_notMem 6 other)
        (stops_offsetSuffix a) (stops_offsetSuffix b) (List.tail_eq_of_cons_eq h)
      exact ⟨congrArg some (hexLower_inj hcode),offsetSuffix_inj hoffset⟩

/-- An id tells the class and the EPC. -/
theorem entityId_inj {c c' : Nat} {e e' : Epc} {m m' : Option Nat} {a b : Nat}
    (h : entityId c e m a = entityId c' e' m' b) : c = c' ∧ e = e' ∧ idSuffix m a = idSuffix m' b := by
  have hlist := congrArg String.toList h
  rw [toList_entityId,toList_entityId] at hlist
  have htail := List.tail_eq_of_cons_eq (List.append_cancel_left hlist)
  obtain ⟨hclass,htail⟩ := split_at_sep (underscore_notMem 4 c) (underscore_notMem 4 c') stops_cons stops_cons htail
  have htail := List.tail_eq_of_cons_eq (List.append_cancel_left (List.tail_eq_of_cons_eq htail))
  obtain ⟨hepc,hsuffix⟩ := split_at_sep (underscore_notMem 2 e) (underscore_notMem 2 e') (stops_idSuffix m a)
    (stops_idSuffix m' b) htail
  exact ⟨hexLower_inj hclass,hexLower_inj hepc,hsuffix⟩

/-! ### The registry -/

section Registry
variable {classCode classCode' : Nat} {entity other : EntityDefinition}

theorem Emitted.epc_of_id (h : Emitted classCode entity) (hother : Emitted classCode' other)
    (hid : entity.id = other.id) : classCode = classCode' ∧ entity.epc = other.epc := by
  rw [h.id,hother.id] at hid
  obtain ⟨hclass,hepc,_⟩ := entityId_inj hid
  exact ⟨hclass,hepc⟩

theorem OfClass.entity_of_id {epcs : List Epc} {entities : List EntityDefinition} (h : OfClass classCode epcs entities)
    (hentity : entity ∈ entities) (hother : other ∈ entities) (hid : entity.id = other.id) : entity = other := by
  have hscope : entity.epc = other.epc → (entity.manufacturerCode = none ↔ other.manufacturerCode = none) := by
    intro hepc
    by_cases hmem : entity.epc ∈ epcs
    · rw [h.generated entity hentity hmem,h.generated other hother (hepc ▸ hmem)]
    · have hdefined := (h.defined entity hentity hmem).scope
      have hdefined' := (h.defined other hother (hepc ▸ hmem)).scope
      rw [hepc,← hdefined'] at hdefined
      exact not_iff_not.mp hdefined
  rw [(h.emitted entity hentity).id,(h.emitted other hother).id] at hid
  obtain ⟨_,hepc,hsuffix⟩ := entityId_inj hid
  obtain ⟨hmanufacturer,hoffset⟩ := idSuffix_inj (hscope hepc) hsuffix
  exact (h.separate.eq hentity hother ⟨hepc,hoffset,.inl hmanufacturer⟩).symm

theorem DefinitionsBuild.Consistent.ne_shared {build : DefinitionsBuild} (h : build.Consistent)
    (hown : entity ∈ definitionsOf (build.entities classCode)) (hshared : other ∈ definitionsOf build.common)
    (hid : entity.id = other.id) : classCode = 0 ∧ entity.epc = other.epc :=
  ((h.ofClass classCode).emitted entity hown).epc_of_id (h.common.emitted other hshared) hid

/-- In a class, and over all classes if the superclass is none of them, an id belongs to one entity. -/
theorem Inputs.eq_of_id {inputs : Inputs} {build : DefinitionsBuild} (h : inputs.WellFormed)
    (hbuild : inputs.build = .ok build) (hclass : classCode = classCode' ∨ Dict.get 0 build.devices = none)
    (hentity : entity ∈ build.registry.entities classCode) (hother : other ∈ build.registry.entities classCode')
    (hid : entity.id = other.id) : entity = other := by
  have hconsistent := consistent_of_build h hbuild
  have hnone : Dict.get 0 build.devices = none → ∀ entity, entity ∉ definitionsOf (build.entities 0) := by
    intro hnone entity hown
    rw [(written_of_none hnone).2] at hown
    cases hown
  obtain hown | ⟨_,hshared,hfree⟩ := mem_registry.mp hentity
  · obtain hown' | ⟨_,hshared',hfree'⟩ := mem_registry.mp hother
    · obtain ⟨rfl,_⟩ := ((hconsistent.ofClass classCode).emitted entity hown).epc_of_id
        ((hconsistent.ofClass classCode').emitted other hown') hid
      exact (hconsistent.ofClass classCode).entity_of_id hown hown' hid
    · obtain ⟨rfl,hepc⟩ := hconsistent.ne_shared hown hshared' hid
      obtain rfl | hempty := hclass
      · exact absurd hepc (hfree' entity hown)
      · exact absurd hown (hnone hempty entity)
  · obtain hown' | ⟨_,hshared',_⟩ := mem_registry.mp hother
    · obtain ⟨rfl,hepc⟩ := hconsistent.ne_shared hown' hshared hid.symm
      obtain rfl | hempty := hclass
      · exact absurd hepc (hfree other hown')
      · exact absurd hown' (hnone hempty other)
    · exact hconsistent.common.ofClass.entity_of_id hshared hshared' hid

end Registry

/-! ### Two classes -/

def lightingFile : DeviceFile where
  classCode := 0x0290
  shortName := "generalLighting"
  className := ("General lighting","一般照明")
  elProperties := [latestEntry "0xB0" "Illuminance level" {type := some .number, format := some "uint8"}]

/-- The air conditioner, with a light of another class. -/
def twoClasses : Inputs := {airConditioner with files := airConditioner.files ++ [lightingFile]}

def twoClassesBuild : DefinitionsBuild := twoClasses.build.toOption.getD ⟨[],[],[],[]⟩

theorem twoClasses_build : twoClasses.build = .ok twoClassesBuild := eq_ok_getD (by decide +kernel) _

theorem twoClasses_wellFormed : twoClasses.WellFormed where
  superclass := airConditioner_wellFormed.superclass
  files file hfile := by
    obtain hfile | hfile := List.mem_append.mp hfile
    · exact airConditioner_wellFormed.files file hfile
    · rw [List.mem_singleton.mp hfile]
      exact distinctEpcs_of_eq [0xB0] (by decide +kernel) (List.nodup_singleton _)
  custom := airConditioner_wellFormed.custom

/-- The operation status is one for both classes. -/
theorem Inputs.eq_of_id_shared : ∃ entity ∈ twoClassesBuild.registry.entities 0x0130,
    ((twoClassesBuild.registry.entities 0x0290).find? fun other => decide (other.id = "class_0000_epc_80")) =
      some entity := by
  have hshared : ∃ entity ∈ twoClassesBuild.registry.entities 0x0130,
      entity ∈ twoClassesBuild.registry.entities 0x0290 ∧ entity.id = "class_0000_epc_80" := by decide +kernel
  obtain ⟨entity,hentity,hmem,hid⟩ := hshared
  refine ⟨entity,hentity,FirstMatch.find?_unique hmem (decide_eq_true hid) ?_⟩
  intro other hother hsame
  have hnone : Dict.get 0 twoClassesBuild.devices = none := by decide +kernel
  exact Inputs.eq_of_id twoClasses_wellFormed twoClasses_build (Or.inr hnone) hother hentity
    ((of_decide_eq_true hsame).trans hid.symm)

end Pyhems.Generator

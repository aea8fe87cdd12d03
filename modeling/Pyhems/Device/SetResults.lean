import Pyhems.Device.RangeRecovery

/-! How the answer to a SetC sorts the requested EPCs, and what `set_properties` then writes to the
cache. -/
namespace Pyhems.Device
open Protocol Library Pyhems.Runtime
open Get (Epc)

/-- The answer gives the EPC back without data. -/
def Acknowledges (frame : Frame) (epc : Epc) : Prop := ∃ prop ∈ frame.properties, prop.epc = epc ∧ prop.edt = []

/-- The answer gives the EPC back with data. -/
def Refuses (frame : Frame) (epc : Epc) : Prop :=
  frame.esv = .setcSna ∧ ∃ prop ∈ frame.properties, prop.epc = epc ∧ prop.edt ≠ []

/-- Every requested EPC belongs to exactly one class. -/
structure Classifies (requested : Finset Epc) (result : SetRequestResult) : Prop where
  accepted_rejected : Disjoint result.acceptedEpcs result.rejectedEpcs
  accepted_unanswered : Disjoint result.acceptedEpcs result.unansweredEpcs
  rejected_unanswered : Disjoint result.rejectedEpcs result.unansweredEpcs
  union : result.acceptedEpcs ∪ result.rejectedEpcs ∪ result.unansweredEpcs = requested

/-- The result of a call sorts the requested EPCs, and the cache takes nothing that was refused. -/
def SortedOut (properties : List Property) (frame : Frame) : Prop :=
  ∃ result, Pyhems.Runtime.setProperties properties (some (.ok (true,some frame))) = .ok result ∧
    Classifies (epcsOf properties) result ∧
    ∀ (s : Manager) key refresh key' epc,
      (s.propertiesSet key properties refresh result).cached key' epc ≠ s.cached key' epc → ¬ Refuses frame epc

variable {requested : Finset Epc} {frame : Frame} {s : Manager} {key : DeviceKey} {properties : List Property}

theorem mem_epcsOf {properties : List Property} {epc : Epc} :
    epc ∈ epcsOf properties ↔ ∃ prop ∈ properties, prop.epc = epc := by
  rw [epcsOf,List.mem_toFinset,List.mem_map]

/-- A class holds the requested EPCs of the properties that it is for. -/
theorem mem_named {p : Property → Prop} [DecidablePred p] {epc : Epc} :
    epc ∈ epcsOf ((frame.properties.filter fun prop => decide (prop.epc ∈ requested)).filter fun prop =>
      decide (p prop)) ↔ epc ∈ requested ∧ ∃ prop ∈ frame.properties, prop.epc = epc ∧ p prop := by
  rw [mem_epcsOf]
  constructor
  · rintro ⟨prop,hprop,rfl⟩
    obtain ⟨hnamed,hp⟩ := List.mem_filter.mp hprop
    obtain ⟨hmem,hrequested⟩ := List.mem_filter.mp hnamed
    exact ⟨of_decide_eq_true hrequested,prop,hmem,rfl,of_decide_eq_true hp⟩
  · rintro ⟨hrequested,prop,hmem,rfl,hp⟩
    exact ⟨prop,List.mem_filter.mpr ⟨List.mem_filter.mpr ⟨hmem,decide_eq_true hrequested⟩,
      decide_eq_true hp⟩,rfl⟩

theorem mem_accepted (hesv : frame.esv = .setcSna) {epc : Epc} :
    epc ∈ (acknowledged requested frame).acceptedEpcs ↔ epc ∈ requested ∧ Acknowledges frame epc := by
  rw [acknowledged,if_neg (by rw [hesv]; decide)]
  exact mem_named

theorem mem_rejected (hesv : frame.esv = .setcSna) {epc : Epc} :
    epc ∈ (acknowledged requested frame).rejectedEpcs ↔ epc ∈ requested ∧ Refuses frame epc := by
  rw [acknowledged,if_neg (by rw [hesv]; decide),Refuses,and_iff_right hesv]
  exact mem_named

/-- Two classes overlap only by an EPC that is given back both ways. -/
theorem classifies_iff (hesv : frame.esv = .setRes ∨ frame.esv = .setcSna) :
    Classifies requested (acknowledged requested frame) ↔
      ¬ ∃ epc ∈ requested, Acknowledges frame epc ∧ Refuses frame epc := by
  rcases hesv with hesv | hesv
  · have hrefuses : ∀ epc, ¬ Refuses frame epc := by
      rintro epc ⟨hsna,_⟩
      cases hesv.symm.trans hsna
    refine ⟨fun _ ⟨epc,_,_,href⟩ => hrefuses epc href,fun _ => ?_⟩
    rw [acknowledged,if_pos hesv]
    exact ⟨Finset.disjoint_empty_right _,Finset.disjoint_empty_right _,Finset.disjoint_empty_left _,
      by simp⟩
  · have hunanswered : (acknowledged requested frame).unansweredEpcs =
        (requested \ (acknowledged requested frame).acceptedEpcs) \
          (acknowledged requested frame).rejectedEpcs := by
      rw [acknowledged,if_neg (by rw [hesv]; decide)]
    constructor
    · rintro hclasses ⟨epc,hrequested,hack,href⟩
      exact Finset.disjoint_left.mp hclasses.accepted_rejected ((mem_accepted hesv).mpr ⟨hrequested,hack⟩)
        ((mem_rejected hesv).mpr ⟨hrequested,href⟩)
    · intro hnone
      refine ⟨Finset.disjoint_left.mpr fun epc hacc hrej => ?_,?_,?_,?_⟩
      · obtain ⟨hrequested,hack⟩ := (mem_accepted hesv).mp hacc
        exact hnone ⟨epc,hrequested,hack,((mem_rejected hesv).mp hrej).2⟩
      · rw [hunanswered]
        exact Finset.disjoint_left.mpr fun epc hacc hun =>
          (Finset.mem_sdiff.mp (Finset.mem_sdiff.mp hun).1).2 hacc
      · rw [hunanswered]
        exact Finset.disjoint_sdiff
      · ext epc
        rw [hunanswered,Finset.mem_union,Finset.mem_union,Finset.mem_sdiff,Finset.mem_sdiff,
          mem_accepted hesv,mem_rejected hesv]
        tauto

/-! ### The cache -/

/-- A refresh is scheduled beside the cache. -/
theorem refreshAccepted_frame {node : NodeState} {refresh : Bool} {epcs : Finset Epc} :
    (s.refreshAccepted key node refresh epcs).data = s.data ∧
      (s.refreshAccepted key node refresh epcs).emitted = s.emitted := by
  unfold Manager.refreshAccepted Manager.scheduleRefresh
  simp only
  split
  · split <;> exact ⟨rfl,rfl⟩
  · exact ⟨rfl,rfl⟩

theorem propertiesSet_unsent {refresh : Bool} {result : SetRequestResult} (h : result.sent = false) :
    s.propertiesSet key properties refresh result = s := by
  unfold Manager.propertiesSet
  split
  · rfl
  · rw [if_pos (by simp [h])]

theorem propertiesSet_data {node : NodeState} {refresh : Bool} {result : SetRequestResult}
    (hnode : s.data key = some node) (hsent : result.sent = true) :
    (s.propertiesSet key properties refresh result).data = Function.update s.data key
      (some {node with properties :=
        (applyAcceptedProperties node.properties properties result.acceptedEpcs).1}) := by
  unfold Manager.propertiesSet
  rw [hnode]
  simp only [hsent,Bool.not_true,Bool.false_eq_true,if_false]
  rw [refreshAccepted_frame.1,notify_data]
  rfl

/-- Only accepted EPCs change. -/
theorem propertiesSet_cached {refresh : Bool} {result : SetRequestResult} {key' : DeviceKey} {epc : Epc}
    (h : (s.propertiesSet key properties refresh result).cached key' epc ≠ s.cached key' epc) :
    epc ∈ result.acceptedEpcs := by
  cases hsent : result.sent with
  | false => exact absurd (by rw [propertiesSet_unsent hsent]) h
  | true =>
    cases hnode : s.data key with
    | none =>
      have hsame : s.propertiesSet key properties refresh result = s := by
        unfold Manager.propertiesSet
        rw [hnode]
      exact absurd (by rw [hsame]) h
    | some node =>
      rw [Manager.cached,propertiesSet_data hnode hsent] at h
      by_cases hkey : key' = key
      · subst hkey
        rw [Function.update_self,Option.bind_some,Manager.cached,hnode,Option.bind_some] at h
        have hmem : epc ∈ epcsOf (properties.filter fun prop => decide (prop.epc ∈ result.acceptedEpcs)) := by
          by_contra hnot
          exact h (writeProperties_of_notMem _ hnot)
        obtain ⟨prop,hprop,rfl⟩ := mem_epcsOf.mp hmem
        exact of_decide_eq_true (List.mem_filter.mp hprop).2
      · rw [Function.update_of_ne hkey] at h
        exact absurd rfl h

/-- An answer is sorted out exactly if it gives no requested EPC back both with and without data. -/
theorem sortedOut_iff (properties : List Property) (frame : Frame)
    (hesv : frame.esv = .setRes ∨ frame.esv = .setcSna) :
    SortedOut properties frame ↔
      ¬ ∃ epc ∈ epcsOf properties, Acknowledges frame epc ∧ Refuses frame epc := by
  by_cases hempty : properties = []
  · subst hempty
    refine ⟨fun _ ⟨epc,hmem,_⟩ => absurd hmem (Finset.notMem_empty epc),fun _ => ?_⟩
    refine ⟨{sent := false},rfl,⟨by simp,by simp,by simp,rfl⟩,fun s key refresh key' epc h => ?_⟩
    exact absurd (propertiesSet_cached h) (Finset.notMem_empty epc)
  · have hresult : Pyhems.Runtime.setProperties properties (some (.ok (true,some frame))) =
        .ok (acknowledged (epcsOf properties) frame) := by
      rw [Pyhems.Runtime.setProperties,if_neg hempty]
    rw [← classifies_iff hesv]
    constructor
    · rintro ⟨result,he,hclasses,_⟩
      cases hresult.symm.trans he
      exact hclasses
    · intro hclasses
      refine ⟨_,hresult,hclasses,fun s key refresh key' epc h href => ?_⟩
      have hacc := propertiesSet_cached h
      have hrequested : epc ∈ epcsOf properties := by
        rw [← hclasses.union]
        exact Finset.mem_union_left _ (Finset.mem_union_left _ hacc)
      exact Finset.disjoint_left.mp hclasses.accepted_rejected hacc
        ((mem_rejected href.1).mpr ⟨hrequested,href⟩)

/-- An answer of a humidity sensor to a SetC of the controller. -/
def setAnswer (esv : ESV) (properties : List Property) : Frame :=
  ⟨humiditySensor,controllerInstance,esv,1,properties⟩

/-- One EPC is accepted, one is refused, and one does not come back. -/
theorem sortedOut_mixed :
    let properties : List Property := [⟨0x80,[0x30]⟩,⟨0xB0,[0x41]⟩,⟨0xB3,[0x14]⟩]
    let answer := setAnswer .setcSna [⟨0xB0,[0x41]⟩,⟨0x80,[]⟩]
    SortedOut properties answer ∧ acknowledged (epcsOf properties) answer =
      ⟨true,some .setcSna,{0x80},{0xB0},{0xB3}⟩ := by
  intro properties answer
  refine ⟨(sortedOut_iff properties answer (Or.inr rfl)).mpr ?_,by decide⟩
  rintro ⟨epc,_,⟨accepted,haccepted,rfl,hempty⟩,_,refused,hrefused,hepc,hdata⟩
  rcases List.mem_pair.mp haccepted with rfl | rfl
  · cases hempty
  · rcases List.mem_pair.mp hrefused with rfl | rfl
    · exact absurd hepc (by decide)
    · exact hdata rfl

/-- An EPC that is given back twice is both accepted and rejected. -/
theorem both_classes : ¬ ∀ (properties : List Property) (frame : Frame),
    (frame.esv = .setRes ∨ frame.esv = .setcSna) → SortedOut properties frame := by
  intro h
  obtain ⟨result,hresult,hclasses,_⟩ :=
    h [⟨0x80,[0x30]⟩] (setAnswer .setcSna [⟨0x80,[]⟩,⟨0x80,[0x30]⟩]) (Or.inr rfl)
  cases hresult
  exact absurd hclasses.accepted_rejected (by decide)

end Pyhems.Device

import Mathlib.Data.Finset.Basic
import Mathlib.Data.List.Perm.Basic
import Mathlib.Data.List.Induction
import Pyhems.Protocol.Bytes

/-! Device-specific GET policies and the planner that takes the first batch of a queue. -/
namespace Pyhems.Get
open Protocol

abbrev Epc := Nat

/-- Constraints that apply to the EPCs of one GET request. -/
structure GetBatchPolicy where
  incompatiblePairs : List (Finset Epc) := []
  maxBatchSize : Option Nat := none

/-- The table, keyed by manufacturer code and class code. -/
def getBatchPolicies : List ((Nat × Nat) × GetBatchPolicy) :=
  [((0x00000B,0x0287),{incompatiblePairs := [{0xB3,0xB7}]}),
    ((0x0000E8,0x0290),{maxBatchSize := some 14}),
    ((0x0000E8,0x02A3),{maxBatchSize := some 9})]

def hasGetBatchPolicyForClass (classCode : Nat) : Bool :=
  getBatchPolicies.any fun entry => entry.1.2 == classCode

def getGetBatchPolicy (manufacturerCode : Option Nat) (classCode : Nat) : Option GetBatchPolicy :=
  match manufacturerCode with
  | none => none
  | some manufacturerCode => getBatchPolicies.lookup (manufacturerCode,classCode)

/-- `_can_add_to_batch`: no pair holds the EPC together with another EPC of the batch. -/
def canAddToBatch (batch : List Epc) (epc : Epc) : Option GetBatchPolicy → Bool
  | none => true
  | some policy => policy.incompatiblePairs.all fun pair =>
      !(decide (epc ∈ pair) && decide ((pair.erase epc ∩ batch.toFinset).Nonempty))

/-- The capacity of one request: the smaller of the known limit and the policy's maximum. -/
def batchCapacity (policy : Option GetBatchPolicy) (observed : Option Nat) : Option Nat :=
  match policy.bind GetBatchPolicy.maxBatchSize with
  | none => observed
  | some size =>
    match observed with
    | none => some size
    | some capacity => some (min capacity size)

/-- `capacity is not None and len(batch) >= capacity`. -/
def full (capacity : Option Nat) (batch : List Epc) : Bool :=
  match capacity with
  | none => false
  | some capacity => decide (capacity ≤ batch.length)

/-- One turn of the planner's loop over the pair (batch, remaining). -/
def place (policy : Option GetBatchPolicy) (capacity : Option Nat)
    (plan : List Epc × List Epc) (epc : Epc) : List Epc × List Epc :=
  if full capacity plan.1 || !canAddToBatch plan.1 epc policy then (plan.1,plan.2 ++ [epc])
  else (plan.1 ++ [epc],plan.2)

def splitBatch (policy : Option GetBatchPolicy) (capacity : Option Nat) (epcs : List Epc) :
    List Epc × List Epc :=
  epcs.foldl (place policy capacity) ([],[])

/-- Take the first batch of the queue and return what remains. -/
def takeFirstBatch (epcs : List Epc) (manufacturerCode : Option Nat) (classCode : Nat)
    (observedBatchCapacity : Option Nat) : Except Exn (List Epc × List Epc) :=
  if observedBatchCapacity = some 0 then
    .error (.valueError "observed_batch_capacity must be positive")
  else
    let policy := getGetBatchPolicy manufacturerCode classCode
    .ok (splitBatch policy (batchCapacity policy observedBatchCapacity) epcs)

/-! ### What one split gives -/

variable {policy : Option GetBatchPolicy} {capacity : Option Nat}

/-- Two EPCs that the policy does not let one request carry. -/
def Incompatible (policy : Option GetBatchPolicy) (a b : Epc) : Prop :=
  ∃ rules pair, policy = some rules ∧ pair ∈ rules.incompatiblePairs ∧ a ≠ b ∧ a ∈ pair ∧ b ∈ pair

theorem Incompatible.symm {a b : Epc} (h : Incompatible policy a b) : Incompatible policy b a := by
  obtain ⟨rules,pair,hp,hm,hne,ha,hb⟩ := h
  exact ⟨rules,pair,hp,hm,hne.symm,hb,ha⟩

theorem canAddToBatch_iff {batch : List Epc} {epc : Epc} :
    canAddToBatch batch epc policy = true ↔ ∀ b ∈ batch, ¬ Incompatible policy epc b := by
  cases policy with
  | none => simp [canAddToBatch,Incompatible]
  | some rules =>
    simp only [canAddToBatch,List.all_eq_true,Bool.not_eq_true',Bool.and_eq_false_iff,
      decide_eq_false_iff_not,Finset.not_nonempty_iff_eq_empty,Incompatible]
    constructor
    · rintro h b hb ⟨_,pair,hp,hm,hne,he,hbp⟩
      cases hp
      rcases h pair hm with h | h
      · exact h he
      · have hmem : b ∈ pair.erase epc ∩ batch.toFinset :=
          Finset.mem_inter.mpr ⟨Finset.mem_erase.mpr ⟨hne.symm,hbp⟩,List.mem_toFinset.mpr hb⟩
        simp [h] at hmem
    · intro h pair hm
      by_cases he : epc ∈ pair
      · right
        apply Finset.eq_empty_of_forall_notMem
        intro b hb
        obtain ⟨hb,hbatch⟩ := Finset.mem_inter.mp hb
        obtain ⟨hne,hbp⟩ := Finset.mem_erase.mp hb
        exact h b (List.mem_toFinset.mp hbatch) ⟨rules,pair,rfl,hm,hne.symm,he,hbp⟩
      · exact Or.inl he

theorem splitBatch_concat (epcs : List Epc) (epc : Epc) :
    splitBatch policy capacity (epcs ++ [epc]) =
      place policy capacity (splitBatch policy capacity epcs) epc := by
  simp [splitBatch]

/-- The two exits of the planner's loop body, with the guard that led there. -/
theorem place_cases (policy : Option GetBatchPolicy) (capacity : Option Nat) (plan : List Epc × List Epc) (epc : Epc) :
    (place policy capacity plan epc = (plan.1,plan.2 ++ [epc]) ∧
      (full capacity plan.1 = true ∨ ∃ b ∈ plan.1, Incompatible policy epc b)) ∨
    (place policy capacity plan epc = (plan.1 ++ [epc],plan.2) ∧
      full capacity plan.1 = false ∧ ∀ b ∈ plan.1, ¬ Incompatible policy epc b) := by
  unfold place
  cases hf : full capacity plan.1
  · by_cases hc : canAddToBatch plan.1 epc policy = true
    · exact Or.inr ⟨by simp [hc],rfl,canAddToBatch_iff.mp hc⟩
    · refine Or.inl ⟨by simp [hc],Or.inr ?_⟩
      rw [canAddToBatch_iff] at hc
      push Not at hc
      exact hc
  · exact Or.inl ⟨by simp,Or.inl rfl⟩

theorem splitBatch_perm (epcs : List Epc) :
    ((splitBatch policy capacity epcs).1 ++ (splitBatch policy capacity epcs).2).Perm epcs := by
  induction epcs using List.reverseRecOn with
  | nil => exact .refl _
  | append_singleton epcs epc ih =>
    rw [splitBatch_concat]
    rcases place_cases policy capacity
      (splitBatch policy capacity epcs) epc with ⟨he,_⟩ | ⟨he,_⟩
    · rw [he,← List.append_assoc]
      exact ih.append_right [epc]
    · rw [he]
      refine .trans ?_ (ih.append_right [epc])
      simpa only [List.append_assoc] using List.perm_append_comm.append_left _

theorem splitBatch_length_le (epcs : List Epc) {c : Nat} (hc : capacity = some c) :
    (splitBatch policy capacity epcs).1.length ≤ c := by
  subst hc
  induction epcs using List.reverseRecOn with
  | nil => exact Nat.zero_le c
  | append_singleton epcs epc ih =>
    rw [splitBatch_concat]
    rcases place_cases policy (some c)
      (splitBatch policy (some c) epcs) epc with ⟨he,_⟩ | ⟨he,hroom,_⟩
    · rwa [he]
    · simp only [full,decide_eq_false_iff_not,not_le] at hroom
      simp only [he,List.length_append,List.length_singleton]
      omega

theorem splitBatch_compatible (epcs : List Epc) :
    ∀ a ∈ (splitBatch policy capacity epcs).1, ∀ b ∈ (splitBatch policy capacity epcs).1,
      ¬ Incompatible policy a b := by
  induction epcs using List.reverseRecOn with
  | nil => simp [splitBatch]
  | append_singleton epcs epc ih =>
    rw [splitBatch_concat]
    rcases place_cases policy capacity
      (splitBatch policy capacity epcs) epc with ⟨he,_⟩ | ⟨he,_,hcompat⟩
    · rwa [he]
    · rw [he]
      intro a ha b hb h
      rcases List.mem_append.mp ha with ha | ha <;> rcases List.mem_append.mp hb with hb | hb
      · exact ih a ha b hb h
      · cases List.mem_singleton.mp hb
        exact hcompat a ha h.symm
      · cases List.mem_singleton.mp ha
        exact hcompat b hb h
      · obtain ⟨_,_,_,_,hne,_⟩ := h
        exact hne ((List.mem_singleton.mp ha).trans (List.mem_singleton.mp hb).symm)

/-- The first EPC of a queue always fits, and the batch never loses an EPC again. -/
theorem splitBatch_ne_nil {epcs : List Epc} (hne : epcs ≠ []) (hc : capacity ≠ some 0) :
    (splitBatch policy capacity epcs).1 ≠ [] := by
  induction epcs using List.reverseRecOn with
  | nil => exact absurd rfl hne
  | append_singleton epcs epc ih =>
    rw [splitBatch_concat]
    rcases place_cases policy capacity
      (splitBatch policy capacity epcs) epc with ⟨he,hwhy⟩ | ⟨he,_⟩
    · rw [he]
      by_cases hnil : epcs = []
      · subst hnil
        rcases hwhy with hfull | ⟨b,hb,_⟩
        · cases capacity with
          | none => cases hfull
          | some c =>
            have : c = 0 := by simpa [full,splitBatch] using hfull
            exact absurd (congrArg some this) hc
        · cases hb
      · exact ih hnil
    · rw [he]
      exact List.append_ne_nil_of_right_ne_nil _ (by simp)

/-- Without a policy the planner cuts the queue at the capacity. -/
theorem splitBatch_noPolicy (c : Nat) (epcs : List Epc) :
    splitBatch none (some c) epcs = (epcs.take c,epcs.drop c) := by
  induction epcs using List.reverseRecOn with
  | nil => simp [splitBatch]
  | append_singleton epcs epc ih =>
    rw [splitBatch_concat,ih,place]
    by_cases h : c ≤ epcs.length
    · simp [full,h,List.take_append_of_le_length h,List.drop_append_of_le_length h]
    · have ht : epcs.take c = epcs := List.take_of_length_le (by omega)
      have hd : epcs.drop c = [] := List.drop_eq_nil_of_le (by omega)
      have hl : (epcs ++ [epc]).length ≤ c := by
        rw [List.length_append,List.length_singleton]
        omega
      simp [full,h,ht,hd,canAddToBatch,List.take_of_length_le hl,List.drop_eq_nil_of_le hl]

/-- Without a policy and a limit the whole queue is one batch. -/
theorem splitBatch_unlimited (epcs : List Epc) : splitBatch none none epcs = (epcs,[]) := by
  induction epcs using List.reverseRecOn with
  | nil => rfl
  | append_singleton epcs epc ih => simp [splitBatch_concat,ih,place,full,canAddToBatch]

/-! ### What the planner gives -/

/-- The maxima of the policy table are positive, so they never empty a batch. -/
theorem maxBatchSize_ne_zero (manufacturerCode : Option Nat) (classCode : Nat) :
    (getGetBatchPolicy manufacturerCode classCode).bind GetBatchPolicy.maxBatchSize ≠ some 0 := by
  cases manufacturerCode with
  | none => simp [getGetBatchPolicy]
  | some manufacturerCode =>
    simp only [getGetBatchPolicy,getBatchPolicies,List.lookup_cons,List.lookup_nil]
    repeat' split
    all_goals simp

/-- What a planned batch satisfies, for the limit and the policy it was planned with. -/
structure Planned (policy : Option GetBatchPolicy) (limit : Option Nat)
    (queue batch rest : List Epc) : Prop where
  split_eq : (batch,rest) = splitBatch policy (batchCapacity policy limit) queue
  perm : (batch ++ rest).Perm queue
  limit_le : ∀ c, limit = some c → batch.length ≤ c
  policy_le : ∀ c, policy.bind GetBatchPolicy.maxBatchSize = some c → batch.length ≤ c
  compatible : ∀ a ∈ batch, ∀ b ∈ batch, ¬ Incompatible policy a b
  nonempty : queue ≠ [] → batch ≠ []

theorem batchCapacity_le_observed (policy : Option GetBatchPolicy) {observed : Option Nat} {c : Nat}
    (h : observed = some c) : ∃ d ≤ c, batchCapacity policy observed = some d := by
  subst h
  cases hp : policy.bind GetBatchPolicy.maxBatchSize with
  | none => exact ⟨c,le_refl c,by rw [batchCapacity,hp]⟩
  | some m => exact ⟨min c m,min_le_left c m,by rw [batchCapacity,hp]⟩

theorem batchCapacity_le_policy (observed : Option Nat) {c : Nat}
    (h : policy.bind GetBatchPolicy.maxBatchSize = some c) :
    ∃ d ≤ c, batchCapacity policy observed = some d := by
  cases observed with
  | none => exact ⟨c,le_refl c,by rw [batchCapacity,h]⟩
  | some m => exact ⟨min m c,min_le_right m c,by rw [batchCapacity,h]⟩

theorem batchCapacity_ne_zero {observed : Option Nat}
    (hp : policy.bind GetBatchPolicy.maxBatchSize ≠ some 0) (ho : observed ≠ some 0) :
    batchCapacity policy observed ≠ some 0 := by
  unfold batchCapacity
  split
  · exact ho
  · next m hm =>
    split
    · next => rwa [← hm]
    · next c =>
      intro h
      have hzero : min c m = 0 := Option.some.inj h
      rcases Nat.min_eq_zero_iff.mp hzero with h | h
      · exact ho (by rw [h])
      · exact hp (by rw [hm,h])

/-- A limit of at least one lets the planner return, and its plan keeps every rule. -/
theorem takeFirstBatch_planned {limit : Option Nat} (queue : List Epc)
    (manufacturerCode : Option Nat) (classCode : Nat) (hlimit : limit ≠ some 0) :
    ∃ batch rest, takeFirstBatch queue manufacturerCode classCode limit = .ok (batch,rest) ∧
      Planned (getGetBatchPolicy manufacturerCode classCode) limit queue batch rest := by
  let policy := getGetBatchPolicy manufacturerCode classCode
  let plan := splitBatch policy (batchCapacity policy limit) queue
  refine ⟨plan.1,plan.2,by rw [takeFirstBatch,if_neg hlimit],rfl,splitBatch_perm queue,?_,?_,
    splitBatch_compatible queue,fun hne => splitBatch_ne_nil hne ?_⟩
  · intro c hc
    obtain ⟨d,hd,he⟩ := batchCapacity_le_observed policy hc
    exact (splitBatch_length_le queue he).trans hd
  · intro c hc
    obtain ⟨d,hd,he⟩ := batchCapacity_le_policy limit hc
    exact (splitBatch_length_le queue he).trans hd
  · exact batchCapacity_ne_zero (maxBatchSize_ne_zero manufacturerCode classCode) hlimit

theorem takeFirstBatch_eq {limit : Option Nat} {queue batch rest : List Epc}
    {manufacturerCode : Option Nat} {classCode : Nat}
    (h : takeFirstBatch queue manufacturerCode classCode limit = .ok (batch,rest)) :
    Planned (getGetBatchPolicy manufacturerCode classCode) limit queue batch rest := by
  by_cases hlimit : limit = some 0
  · rw [takeFirstBatch,if_pos hlimit] at h
    cases h
  · obtain ⟨_,_,he,hplan⟩ := takeFirstBatch_planned queue manufacturerCode classCode hlimit
    rw [h] at he
    cases he
    exact hplan

end Pyhems.Get

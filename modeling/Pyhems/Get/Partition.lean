import Pyhems.Get.PollCycle
import Pyhems.Library.Interleaving

/-! The batches of a queue. One split takes greedily what the capacity and the policy allow, and
splitting what is left over again takes every EPC exactly once. -/
namespace Pyhems.Get
open Protocol Library

variable {policy : Option GetBatchPolicy} {capacity limit : Option Nat} {classCode : Nat} {epcs : List Epc}

/-! ### One split -/

theorem splitBatch_interleaves (epcs : List Epc) :
    Interleaves (splitBatch policy capacity epcs).1 (splitBatch policy capacity epcs).2 epcs := by
  induction epcs using List.reverseRecOn with
  | nil => exact .nil
  | append_singleton epcs epc ih =>
    rw [splitBatch_concat]
    rcases place_cases policy capacity (splitBatch policy capacity epcs) epc with ⟨he,_⟩ | ⟨he,_⟩
    · rw [he]
      exact ih.leave_last epc
    · rw [he]
      exact ih.take_last epc

/-- What was taken or left stays so. -/
theorem splitBatch_of_first (before after : List Epc) :
    (splitBatch policy capacity before).1 <+: (splitBatch policy capacity (before ++ after)).1 ∧
    (splitBatch policy capacity before).2 <+: (splitBatch policy capacity (before ++ after)).2 := by
  induction after using List.reverseRecOn with
  | nil =>
    rw [List.append_nil]
    exact ⟨List.prefix_rfl,List.prefix_rfl⟩
  | append_singleton after epc ih =>
    rw [← List.append_assoc,splitBatch_concat]
    rcases place_cases policy capacity (splitBatch policy capacity (before ++ after)) epc with ⟨he,_⟩ | ⟨he,_⟩
    · rw [he]
      exact ⟨ih.1,ih.2.trans (List.prefix_append _ _)⟩
    · rw [he]
      exact ⟨ih.1.trans (List.prefix_append _ _),ih.2⟩

/-- A batch and the EPCs left over, of one pass over the queue. An EPC is left over only if the batch
was full when it came or already had an EPC in conflict with it. -/
structure Greedy (policy : Option GetBatchPolicy) (capacity : Option Nat) (queue batch rest : List Epc) :
    Prop where
  interleaves : Interleaves batch rest queue
  nonempty : queue ≠ [] → batch ≠ []
  size : ∀ c, capacity = some c → batch.length ≤ c
  compatible : ∀ a ∈ batch, ∀ b ∈ batch, ¬ Incompatible policy a b
  greedy : ∀ before epc after, queue = before ++ epc :: after → ∃ taken left,
    Interleaves taken left before ∧ taken <+: batch ∧ left <+: rest ∧
      (taken ++ [epc] <+: batch ∨ left ++ [epc] <+: rest ∧
        (full capacity taken = true ∨ ∃ b ∈ taken, Incompatible policy epc b))

theorem splitBatch_greedy (policy : Option GetBatchPolicy) (epcs : List Epc) (hcapacity : capacity ≠ some 0) :
    Greedy policy capacity epcs (splitBatch policy capacity epcs).1 (splitBatch policy capacity epcs).2 := by
  refine ⟨splitBatch_interleaves epcs,fun hne => splitBatch_ne_nil hne hcapacity,
    fun c hc => splitBatch_length_le epcs hc,splitBatch_compatible epcs,?_⟩
  rintro before epc after rfl
  have hsplit : before ++ epc :: after = (before ++ [epc]) ++ after := by simp
  have hbefore := @splitBatch_of_first policy capacity before (epc :: after)
  refine ⟨_,_,splitBatch_interleaves before,hbefore.1,hbefore.2,?_⟩
  obtain ⟨htaken,hleft⟩ := @splitBatch_of_first policy capacity (before ++ [epc]) after
  rw [← hsplit,splitBatch_concat] at htaken hleft
  rcases place_cases policy capacity (splitBatch policy capacity before) epc with ⟨he,hwhy⟩ | ⟨he,_⟩
  · rw [he] at hleft
    exact Or.inr ⟨hleft,hwhy⟩
  · rw [he] at htaken
    exact Or.inl htaken

/-! ### Splitting until nothing is left -/

/-- Take batch after batch, each with the limit of its time. The second part is what is left when there
are no more limits. -/
def splitBatches (policy : Option GetBatchPolicy) : List (Option Nat) → List Epc → List (List Epc) × List Epc
  | _, [] => ([],[])
  | [], queue => ([],queue)
  | limit :: limits, queue =>
    let plan := splitBatch policy (batchCapacity policy limit) queue
    let later := splitBatches policy limits plan.2
    (plan.1 :: later.1,later.2)

theorem length_le_flatten {chunks : List (List Epc)} (h : ∀ chunk ∈ chunks, chunk ≠ []) :
    chunks.length ≤ chunks.flatten.length := by
  induction chunks with
  | nil => exact Nat.zero_le _
  | cons chunk chunks ih =>
    obtain ⟨hchunk,hchunks⟩ := List.forall_mem_cons.mp h
    have hpos := List.length_pos_of_ne_nil hchunk
    have hlater := ih hchunks
    rw [List.length_cons,List.flatten_cons,List.length_append]
    omega

theorem splitBatches_all (hpolicy : policy.bind GetBatchPolicy.maxBatchSize ≠ some 0)
    {limits : List (Option Nat)} (hlimits : ∀ limit ∈ limits, limit ≠ some 0)
    (henough : epcs.length ≤ limits.length) :
    (splitBatches policy limits epcs).2 = [] ∧ (splitBatches policy limits epcs).1.flatten.Perm epcs ∧
      ∀ batch ∈ (splitBatches policy limits epcs).1, batch ≠ [] := by
  induction limits generalizing epcs with
  | nil =>
    cases List.length_eq_zero_iff.mp (Nat.le_zero.mp henough)
    exact ⟨rfl,.refl _,nofun⟩
  | cons limit limits ih =>
    cases epcs with
    | nil => exact ⟨rfl,.refl _,nofun⟩
    | cons epc epcs =>
      obtain ⟨hlimit,hlater⟩ := List.forall_mem_cons.mp hlimits
      have hgreedy := splitBatch_greedy policy (epc :: epcs) (batchCapacity_ne_zero hpolicy hlimit)
      have hbatch := hgreedy.nonempty (List.cons_ne_nil _ _)
      have hlength := hgreedy.interleaves.perm.length_eq
      have hpos := List.length_pos_of_ne_nil hbatch
      rw [List.length_append,List.length_cons] at hlength
      rw [List.length_cons,List.length_cons] at henough
      have hshorter : (splitBatch policy (batchCapacity policy limit) (epc :: epcs)).2.length ≤ limits.length := by
        omega
      obtain ⟨hleft,hperm,hchunks⟩ := ih hlater hshorter
      rw [splitBatches]
      · refine ⟨hleft,?_,List.forall_mem_cons.mpr ⟨hbatch,hchunks⟩⟩
        rw [List.flatten_cons]
        exact (hperm.append_left _).trans hgreedy.interleaves.perm
      · nofun

/-! ### Poll cycles -/

/-- The device is there, its limit is unknown or positive, and it answers. -/
structure Turn.Answers (turn : Turn) : Prop where
  node : turn.node ≠ none
  capacity : turn.capacity ≠ some 0
  response : turn.response ≠ none

/-- A cycle whose chunks are all answered comes to its end. -/
theorem runCycle_answered (classCode : Nat) {turns : List Turn} (hturns : ∀ turn ∈ turns, turn.Answers)
    (henough : epcs.length ≤ turns.length) (state : DeviceScheduleState) :
    (runCycle classCode turns epcs state).ending = some .answered := by
  induction turns generalizing epcs state with
  | nil =>
    cases List.length_eq_zero_iff.mp (Nat.le_zero.mp henough)
    rfl
  | cons turn turns ih =>
    by_cases hne : epcs = []
    · subst hne
      rw [runCycle]
    · obtain ⟨hturn,hlater⟩ := List.forall_mem_cons.mp hturns
      obtain ⟨code,hcode⟩ := Option.ne_none_iff_exists'.mp hturn.node
      obtain ⟨latency,hlatency⟩ := Option.ne_none_iff_exists'.mp hturn.response
      obtain ⟨batch,rest,hbatch,hplanned⟩ := takeFirstBatch_planned epcs (some code) classCode hturn.capacity
      have hpos := List.length_pos_of_ne_nil (hplanned.nonempty hne)
      have hlength := hplanned.perm.length_eq
      rw [List.length_append] at hlength
      rw [List.length_cons] at henough
      obtain ⟨epc,epcs,rfl⟩ := List.exists_cons_of_ne_nil hne
      simp only [runCycle,hcode,hbatch,if_neg (hplanned.nonempty hne),hlatency,Cycle.after]
      exact ih hlater (by omega) _

/-- The planner splits its input greedily and loses nothing, however often it is repeated and whatever
limits it is repeated with. -/
theorem takeFirstBatch_greedy (hpolicy : policy.bind GetBatchPolicy.maxBatchSize ≠ some 0)
    (hlimit : limit ≠ some 0) (epcs : List Epc) :
    let plan := splitBatch policy (batchCapacity policy limit) epcs
    Greedy policy (batchCapacity policy limit) epcs plan.1 plan.2 ∧
    (∀ manufacturerCode classCode, getGetBatchPolicy manufacturerCode classCode = policy →
      takeFirstBatch epcs manufacturerCode classCode limit = .ok plan) ∧
    (∀ limits : List (Option Nat), (∀ limit ∈ limits, limit ≠ some 0) → epcs.length ≤ limits.length →
      (splitBatches policy limits epcs).2 = [] ∧ (splitBatches policy limits epcs).1.flatten.Perm epcs ∧
        (splitBatches policy limits epcs).1.length ≤ epcs.length) ∧
    ∀ classCode turns state, (∀ turn ∈ turns, turn.Answers) → epcs.length ≤ turns.length →
      (runCycle classCode turns epcs state).ending = some .answered ∧
        (runCycle classCode turns epcs state).chunks.flatten.Perm epcs ∧
        (runCycle classCode turns epcs state).chunks.length ≤ epcs.length := by
  intro plan
  refine ⟨splitBatch_greedy policy epcs (batchCapacity_ne_zero hpolicy hlimit),?_,?_,?_⟩
  · rintro manufacturerCode classCode rfl
    rw [takeFirstBatch,if_neg hlimit]
  · intro limits hlimits henough
    obtain ⟨hleft,hperm,hchunks⟩ := splitBatches_all hpolicy hlimits henough
    exact ⟨hleft,hperm,hperm.length_eq ▸ length_le_flatten hchunks⟩
  · intro classCode turns state hturns henough
    have hending := runCycle_answered classCode hturns henough state
    obtain ⟨hchunks,rest,hperm,hdone⟩ := @runCycle_chunks classCode turns epcs state
    rw [hdone hending,List.append_nil] at hperm
    exact ⟨hending,hperm,hperm.length_eq ▸ length_le_flatten hchunks⟩

/-- Two EPCs that no request may have together, with a third one. -/
theorem takeFirstBatch_greedy_pair :
    let policy := getGetBatchPolicy (some 0x0B) 0x0287
    let epcs : List Epc := [0xB3,0xB7,0xC0]
    let limits : List (Option Nat) := [some 2,some 1,none]
    let cycle := runCycle 0x0287 [⟨some 0x0B,some 2,some 1⟩,⟨some 0x0B,some 1,some 3⟩,⟨some 0x16,none,some 2⟩] epcs {}
    Greedy policy (batchCapacity policy (some 2)) epcs [0xB3,0xC0] [0xB7] ∧
    takeFirstBatch epcs (some 0x0B) 0x0287 (some 2) = .ok ([0xB3,0xC0],[0xB7]) ∧
    ((splitBatches policy limits epcs).2 = [] ∧ (splitBatches policy limits epcs).1.flatten.Perm epcs ∧
      (splitBatches policy limits epcs).1.length ≤ 3) ∧
    cycle.ending = some .answered ∧ cycle.chunks.flatten.Perm epcs ∧ cycle.chunks.length ≤ 3 := by
  intro policy epcs limits cycle
  obtain ⟨hgreedy,htake,hsplit,hcycle⟩ :=
    @takeFirstBatch_greedy policy (some 2) (maxBatchSize_ne_zero _ _) (by decide) epcs
  have hplan : splitBatch policy (batchCapacity policy (some 2)) epcs = ([0xB3,0xC0],[0xB7]) := by decide
  rw [hplan] at hgreedy htake
  refine ⟨hgreedy,htake _ _ rfl,hsplit limits (by decide) le_rfl,hcycle _ _ _ ?_ le_rfl⟩
  intro turn hturn
  rcases List.mem_cons.mp hturn with rfl | hturn
  · exact ⟨by decide,by decide,by decide⟩
  rcases List.mem_pair.mp hturn with rfl | rfl <;> exact ⟨by decide,by decide,by decide⟩

end Pyhems.Get

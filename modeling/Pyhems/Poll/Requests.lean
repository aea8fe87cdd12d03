import Pyhems.Poll.Cycles

/-! What the cycles of a poller request. The chunks of a cycle, over all interleavings with other cycles,
the loop and the manager, are parts of the EPCs that it was fired for. -/
namespace Pyhems.Poll
open Library Device Protocol Relation Transition
open Get (Epc Ending PollerArguments PollerTiers)
variable {κ : Type}

/-- A cycle has requested its EPCs but the rest; in progress the rest is left, and answered there is none. -/
def Accounts (f : Firing κ) (stage : Stage) (chunks : List (List Epc)) : Prop :=
  ∃ rest, (chunks.flatten ++ rest).Perm (f.epcs.sort (· ≤ ·)) ∧
    (stage.active = true → rest = stage.left) ∧ (stage = .ended .answered → rest = [])

namespace Accounts
variable {f : Firing κ} {stage : Stage} {chunks : List (List Epc)}

theorem created (f : Firing κ) : Accounts f (.created (f.epcs.sort (· ≤ ·))) [] := ⟨_,.refl _,fun _ => rfl,nofun⟩

theorem finish (h : Accounts f stage chunks) (hactive : stage.active = true) {ending : Ending}
    (hdone : ending = .answered → stage.left = []) : Accounts f (.ended ending) chunks := by
  obtain ⟨rest,hperm,hleft,_⟩ := h
  refine ⟨rest,hperm,nofun,?_⟩
  intro hanswered
  rw [hleft hactive]
  exact hdone (Stage.ended.inj hanswered)

theorem request (h : Accounts f stage chunks) (hactive : stage.active = true) {i : Nat} {chunk rest : List Epc}
    (hperm : (chunk ++ rest).Perm stage.left) : Accounts f (.awaiting i chunk rest) (chunks ++ [chunk]) := by
  obtain ⟨old,hold,hleft,_⟩ := h
  refine ⟨rest,?_,fun _ => rfl,nofun⟩
  rw [List.flatten_append,List.flatten_singleton,List.append_assoc]
  rw [hleft hactive] at hold
  exact (hperm.append_left _).trans hold

/-- Each EPC is requested at most once, and once if the cycle is answered to its end. -/
theorem requested (h : Accounts f stage chunks) : chunks.flatten.Nodup ∧ (∀ epc ∈ chunks.flatten, epc ∈ f.epcs) ∧
    (stage = .ended .answered → ∀ epc ∈ f.epcs, epc ∈ chunks.flatten) := by
  obtain ⟨rest,hperm,_,hdone⟩ := h
  have hnodup := hperm.nodup_iff.mpr (Finset.sort_nodup _ _)
  refine ⟨(List.nodup_append.mp hnodup).1,?_,?_⟩
  · intro epc hepc
    exact (Finset.mem_sort _).mp (hperm.subset (List.mem_append_left _ hepc))
  · intro hanswered epc hepc
    have hmem := hperm.symm.subset ((Finset.mem_sort (· ≤ ·)).mpr hepc)
    rw [hdone hanswered,List.append_nil] at hmem
    exact hmem

end Accounts

namespace Poller

def requestsOf (s : Poller κ) (task : Nat) : List (List Epc) :=
  (s.requested.filter fun r => decide (r.1 = task)).map Prod.snd

structure Accounted (s : Poller κ) : Prop where
  length_eq : s.fired.length = s.tasks.length
  known : ∀ r ∈ s.requested, r.1 < s.tasks.length ∧ r.2 ≠ []
  accounts : ∀ (task : Nat) (t : CycleTask κ) (f : Firing κ), s.tasks[task]? = some t → s.fired[task]? = some f →
    f.deviceKey = t.deviceKey ∧ Accounts f t.stage (s.requestsOf task)

variable {s : Poller κ}

theorem accounted_start (tiers : PollerTiers) : Accounted ({tiers} : Poller κ) where
  length_eq := rfl
  known _ h := by cases h
  accounts _ _ _ h := by cases h

theorem Accounted.dropStates (h : s.Accounted) (keep : κ → Bool) : (s.dropStates keep).Accounted := by
  have hlength : (s.dropStates keep).tasks.length = s.tasks.length := List.length_mapIdx
  refine ⟨hlength ▸ h.length_eq,hlength ▸ h.known,?_⟩
  intro task u f hu hf
  obtain ⟨t,ht,rfl⟩ := dropStates_eq_some hu
  obtain ⟨hkey,haccounts⟩ := h.accounts task t f ht hf
  split
  · rw [t.cancel_deviceKey,t.cancel_stage]
    exact ⟨hkey,haccounts⟩
  · exact ⟨hkey,haccounts⟩

theorem Accounted.finish (h : s.Accounted) {task : Nat} {t : CycleTask κ} {ending : Ending}
    (htask : s.tasks[task]? = some t) (hactive : t.stage.active = true)
    (hdone : ending = .answered → t.stage.left = []) : (s.setStage task (.ended ending)).Accounted := by
  have hlength : (s.setStage task (.ended ending)).tasks.length = s.tasks.length := List.length_modify ..
  refine ⟨hlength ▸ h.length_eq,hlength ▸ h.known,?_⟩
  intro k u f hu hf
  obtain ⟨_,hu⟩ | ⟨rfl,v,hv,rfl⟩ := modify_eq_some hu
  · exact h.accounts k u f hu hf
  · cases htask.symm.trans hv
    obtain ⟨hkey,haccounts⟩ := h.accounts k t f hv hf
    exact ⟨hkey,haccounts.finish hactive hdone⟩

theorem Accounted.request (h : s.Accounted) {task i : Nat} {t : CycleTask κ} {chunk rest : List Epc}
    (htask : s.tasks[task]? = some t) (hactive : t.stage.active = true) (hchunk : chunk ≠ [])
    (hperm : (chunk ++ rest).Perm t.stage.left) : (s.request task i chunk rest).Accounted := by
  have hlength : (s.request task i chunk rest).tasks.length = s.tasks.length := List.length_modify ..
  refine ⟨hlength ▸ h.length_eq,?_,?_⟩
  · intro r hr
    rw [hlength]
    obtain hr | hr := List.mem_append.mp hr
    · exact h.known r hr
    · rw [List.mem_singleton.mp hr]
      exact ⟨(List.getElem?_eq_some_iff.mp htask).1,hchunk⟩
  · intro k u f hu hf
    rw [requestsOf,Poller.request,List.filter_append,List.map_append]
    obtain ⟨hne,hu⟩ | ⟨rfl,v,hv,rfl⟩ := modify_eq_some hu
    · obtain ⟨hkey,haccounts⟩ := h.accounts k u f hu hf
      rw [List.filter_singleton,decide_eq_false (Ne.symm hne),cond_false,List.map_nil,List.append_nil]
      exact ⟨hkey,haccounts⟩
    · cases htask.symm.trans hv
      obtain ⟨hkey,haccounts⟩ := h.accounts k t f hv hf
      rw [List.filter_singleton,decide_eq_true rfl,cond_true]
      exact ⟨hkey,haccounts.request hactive hperm⟩

/-- A new task has requested nothing. -/
theorem Accounted.requestsOf_eq_nil (h : s.Accounted) {task : Nat} (htask : s.tasks.length ≤ task) :
    s.requestsOf task = [] := by
  rw [requestsOf,List.map_eq_nil_iff,List.filter_eq_nil_iff]
  intro r hr heq
  have hlt := (h.known r hr).1
  rw [of_decide_eq_true heq] at hlt
  omega

variable [DecidableEq κ]

theorem Accounted.fire (h : s.Accounted) (key : κ) (fast normal : Bool) (epcs : Finset Epc) :
    (s.fire key fast normal epcs).Accounted := by
  obtain ⟨objects,states,hfire⟩ := s.fire_spec key fast normal epcs
  rw [hfire]
  refine ⟨?_,?_,?_⟩
  · simp [h.length_eq]
  · intro r hr
    obtain ⟨hlt,hne⟩ := h.known r hr
    rw [List.length_append]
    exact ⟨Nat.lt_add_right _ hlt,hne⟩
  · intro task t f ht hf
    obtain ht | ⟨rfl,rfl⟩ := concat_eq_some ht
    · obtain hf | ⟨rfl,_⟩ := concat_eq_some hf
      · exact h.accounts task t f ht hf
      · rw [h.length_eq,List.getElem?_length] at ht
        cases ht
    · rw [← h.length_eq,List.getElem?_concat_length] at hf
      cases hf
      refine ⟨rfl,?_⟩
      have hnew := Accounts.created (s.firing key fast normal epcs)
      rw [← h.requestsOf_eq_nil le_rfl] at hnew
      exact hnew

theorem Accounted.move {t : Poller κ} (h : s.Accounted) (hmove : s.Move t) : t.Accounted := by
  cases hmove with
  | drop keep => exact h.dropStates keep
  | create key =>
    obtain ⟨objects,states,hstate,_⟩ := s.getState_spec key
    rw [hstate]
    exact ⟨h.length_eq,h.known,h.accounts⟩
  | fire key fast normal epcs => exact h.fire key fast normal epcs
  | finish ending htask hactive hdone => exact h.finish htask hactive hdone
  | request htask hlive _ hchunk hperm => exact h.request htask (CycleTask.live_iff.mp hlive).1 hchunk hperm
  | observe response =>
    obtain ⟨data,notices,hobserve⟩ := s.observe_spec _ _ response
    rw [hobserve]
    exact ⟨h.length_eq,h.known,h.accounts⟩
  | _ => exact ⟨h.length_eq,h.known,h.accounts⟩

/-- After every run each request is of a cycle that was fired, and a cycle has requested in chunks that are
not empty EPCs that it was fired for, each once at most, and all of them if it was answered to its end. -/
theorem requests_accounted {tiers : PollerTiers} (h : Reachable step {tiers} s) :
    (∀ r ∈ s.requested, r.1 < s.fired.length ∧ r.2 ≠ []) ∧
    ∀ (task : Nat) (f : Firing κ), s.fired[task]? = some f →
      (s.requestsOf task).flatten.Nodup ∧ (∀ epc ∈ (s.requestsOf task).flatten, epc ∈ f.epcs) ∧
      ∀ t, s.tasks[task]? = some t → f.deviceKey = t.deviceKey ∧
        (t.stage = .ended .answered → ∀ epc ∈ f.epcs, epc ∈ (s.requestsOf task).flatten) := by
  have haccounted : s.Accounted := invariant Accounted (accounted_start tiers) (fun _ _ hs hmove => hs.move hmove) h
  refine ⟨fun r hr => haccounted.length_eq ▸ haccounted.known r hr,?_⟩
  intro task f hf
  have htask : task < s.tasks.length := haccounted.length_eq ▸ (List.getElem?_eq_some_iff.mp hf).1
  obtain ⟨hnodup,hsubset,_⟩ := (haccounted.accounts task _ f (List.getElem?_eq_getElem htask) hf).2.requested
  refine ⟨hnodup,hsubset,?_⟩
  intro t ht
  obtain ⟨hkey,haccounts⟩ := haccounted.accounts task t f ht hf
  exact ⟨hkey,haccounts.requested.2.2⟩

/-! ### A cycle of two requests -/

/-- A meter of three EPCs that takes two in a request is found by the loop. -/
def threeFound : List (PollEvent String) :=
  [.register "meter" 0x0287 {meterNode with pollEpcs := {0xE0,0xE3,0xE7}},.learn "meter" (some 2)] ++
    (firstCycle.drop 1).take 3

/-- It answers both requests of its cycle. -/
def threeAnswered : List (PollEvent String) := [.begin 0,.respond 0 (some 2),.respond 0 (some 3)]

/-- The cycle has the EPCs in their order. -/
theorem threeFound_tasks : (exec step {tiers := ({} : PollerArguments).tiers} threeFound).map Poller.tasks =
    some [⟨"meter",.created [0xE0,0xE3,0xE7],false⟩] := by
  have hsort : ({0xE0,0xE3,0xE7} : Finset Epc).sort (· ≤ ·) = [0xE0,0xE3,0xE7] := by
    rw [Finset.sort_insert,Finset.sort_insert,Finset.sort_singleton] <;> decide
  rw [← hsort]
  rfl

theorem requests_accounted_meter : ∃ s : Poller String, s.requestsOf 0 = [[0xE0,0xE3],[0xE7]] ∧
    s.tasks.map CycleTask.stage = [.ended .answered] ∧
    ((∀ r ∈ s.requested, r.1 < s.fired.length ∧ r.2 ≠ []) ∧
      ∀ (task : Nat) (f : Firing String), s.fired[task]? = some f →
        (s.requestsOf task).flatten.Nodup ∧ (∀ epc ∈ (s.requestsOf task).flatten, epc ∈ f.epcs) ∧
        ∀ t, s.tasks[task]? = some t → f.deviceKey = t.deviceKey ∧
          (t.stage = .ended .answered → ∀ epc ∈ f.epcs, epc ∈ (s.requestsOf task).flatten)) := by
  have hrun : ((exec step {tiers := ({} : PollerArguments).tiers} threeFound).bind fun woken =>
      exec step {woken with tasks := [⟨"meter",.created [0xE0,0xE3,0xE7],false⟩]} threeAnswered).any (fun s =>
        s.requestsOf 0 == [[0xE0,0xE3],[0xE7]] && s.tasks.map CycleTask.stage == [.ended .answered]) = true := by
    decide +kernel
  obtain ⟨woken,hwoken,htasks⟩ := Option.map_eq_some_iff.mp threeFound_tasks
  rw [hwoken,Option.bind_some,← htasks] at hrun
  obtain ⟨s,hs,hcheck⟩ := (Option.any_eq_true _ _).mp hrun
  obtain ⟨hrequested,hended⟩ := Bool.and_eq_true_iff.mp hcheck
  exact ⟨s,beq_iff_eq.mp hrequested,beq_iff_eq.mp hended,
    requests_accounted ((reachable_of_exec hwoken).trans (reachable_of_exec hs))⟩

end Poller
end Pyhems.Poll

import Pyhems.Poll.Cycles

/-! What the manager tells about the availability of the devices that are polled. -/
namespace Pyhems.Poll
open Library Device Protocol Relation Transition
open Get (Epc PollerArguments PollerTiers DeviceScheduleState)
variable {κ : Type} [DecidableEq κ]

/-- What a notice does to the availabilities that were emitted for a device since it was registered. -/
def Notice.add (key : κ) (emitted : List Bool) : Notice κ → List Bool
  | .registered other => if other = key then [] else emitted
  | .availabilityChanged other available => if other = key then emitted ++ [available] else emitted

/-- The availabilities that were emitted for a device since it was registered. -/
def emittedFor (notices : List (Notice κ)) (key : κ) : List Bool := notices.foldl (Notice.add key) []

theorem emittedFor_append (notices : List (Notice κ)) (notice : Notice κ) (key : κ) :
    emittedFor (notices ++ [notice]) key = notice.add key (emittedFor notices key) := by
  rw [emittedFor,List.foldl_append]
  rfl

namespace Poller

/-- The availability of a device that the last observation of its state tells. -/
def Observed (state : DeviceScheduleState) (available : Option Bool) : Prop :=
  state = {} ∨ available = none ∨ available = some (decide (state.consecutiveFailures = 0))

structure Told (s : Poller κ) : Prop where
  changes : ∀ key, (emittedFor s.notices key).IsChain (· ≠ ·)
  last : ∀ key node, Dict.get key s.data = some node → node.pollingAvailable = (emittedFor s.notices key).getLast?
  observed : ∀ key node state, Dict.get key s.data = some node → s.stateOf key = some state →
    Observed state.toDeviceScheduleState node.pollingAvailable

variable {s : Poller κ}

theorem told_start (tiers : PollerTiers) : Told ({tiers} : Poller κ) where
  changes _ := .nil
  last := nofun
  observed := nofun

theorem Told.register (h : s.Told) (key : κ) {node : PolledNode} (hnew : node.pollingAvailable = none) :
    Told {s with data := Dict.insert key node s.data, notices := s.notices ++ [.registered key]} := by
  refine ⟨?_,?_,?_⟩
  · intro other
    rw [emittedFor_append,Notice.add]
    split
    · exact .nil
    · exact h.changes other
  · intro other found hfound
    rw [Dict.get_insert] at hfound
    rw [emittedFor_append,Notice.add]
    split at hfound
    · next heq =>
      cases hfound
      rw [if_pos heq,hnew]
      rfl
    · next hne =>
      rw [if_neg hne]
      exact h.last other found hfound
  · intro other found state hfound hstate
    rw [Dict.get_insert] at hfound
    split at hfound
    · cases hfound
      exact .inr (.inl hnew)
    · exact h.observed other found state hfound hstate

theorem Told.change (h : s.Told) {key : κ} {node old : PolledNode} (hold : Dict.get key s.data = some old)
    (havailable : node.pollingAvailable = old.pollingAvailable) :
    Told {s with data := Dict.insert key node s.data} := by
  have hnode : ∀ other found, Dict.get other (Dict.insert key node s.data) = some found →
      ∃ before, Dict.get other s.data = some before ∧ found.pollingAvailable = before.pollingAvailable := by
    intro other found hfound
    rw [Dict.get_insert] at hfound
    split at hfound
    · next heq =>
      cases hfound
      exact ⟨old,heq ▸ hold,havailable⟩
    · exact ⟨found,hfound,rfl⟩
  refine ⟨h.changes,?_,?_⟩
  · intro other found hfound
    obtain ⟨before,hbefore,hsame⟩ := hnode other found hfound
    rw [hsame]
    exact h.last other before hbefore
  · intro other found state hfound hstate
    obtain ⟨before,hbefore,hsame⟩ := hnode other found hfound
    rw [hsame]
    exact h.observed other before state hbefore hstate

/-- The state object that a cycle in progress works on is the one of its device. -/
theorem Wired.state_of_takes (h : s.Wired) {task i : Nat} {t : CycleTask κ} (htask : s.tasks[task]? = some t)
    (hlive : t.live = true) (htakes : s.Takes t i) : Dict.get t.deviceKey s.states = some i := by
  obtain ⟨j,_,hget,_,_,hheld⟩ := h.held task t htask hlive
  rw [htakes.index_eq hheld]
  exact hget

/-- The availability that a response tells is stored and emitted if it is another one. -/
theorem Told.setPollingAvailable (key : κ) (available : Bool)
    (hchanges : ∀ key, (emittedFor s.notices key).IsChain (· ≠ ·))
    (hlast : ∀ key node, Dict.get key s.data = some node →
      node.pollingAvailable = (emittedFor s.notices key).getLast?)
    (hothers : ∀ other node state, other ≠ key → Dict.get other s.data = some node → s.stateOf other = some state →
      Observed state.toDeviceScheduleState node.pollingAvailable)
    (hkey : ∀ state, s.stateOf key = some state → Observed state.toDeviceScheduleState (some available)) :
    (s.setPollingAvailable key available).Told := by
  rw [Poller.setPollingAvailable]
  split
  · next hdata =>
    refine ⟨hchanges,hlast,?_⟩
    intro other node state hnode hstate
    apply hothers other node state _ hnode hstate
    rintro rfl
    cases hdata.symm.trans hnode
  · next node hdata =>
    split
    · next hsame =>
      refine ⟨hchanges,hlast,?_⟩
      intro other found state hfound hstate
      by_cases hother : other = key
      · subst hother
        cases hdata.symm.trans hfound
        rw [hsame]
        exact hkey state hstate
      · exact hothers other found state hother hfound hstate
    · next hchanged =>
      refine ⟨?_,?_,?_⟩
      · intro other
        rw [emittedFor_append,Notice.add]
        split
        · next hother =>
          subst hother
          rw [List.isChain_append]
          refine ⟨hchanges key,List.isChain_singleton _,?_⟩
          intro last hmem next hnext
          cases hnext
          rintro rfl
          exact hchanged ((hlast key node hdata).trans hmem)
        · exact hchanges other
      · intro other found hfound
        rw [Dict.get_insert] at hfound
        rw [emittedFor_append,Notice.add]
        split at hfound
        · next heq =>
          cases hfound
          rw [if_pos heq,List.getLast?_concat]
        · next hne =>
          rw [if_neg hne]
          exact hlast other found hfound
      · intro other found state hfound hstate
        rw [Dict.get_insert] at hfound
        split at hfound
        · next heq =>
          cases hfound
          subst heq
          exact hkey state hstate
        · next hne => exact hothers other found state (Ne.symm hne) hfound hstate

theorem Told.observe (h : s.Told) (hwired : s.Wired) {i : Nat} {key : κ} (hget : Dict.get key s.states = some i)
    (response : Option ℚ) : (s.observe i key response).Told := by
  have hset := Told.setPollingAvailable (s := {s with objects := s.objects.modify i (·.observe response)}) key
    response.isSome h.changes h.last
  apply hset
  · intro other node state hother hnode hstate
    rw [hwired.stateOf_modify hget,if_neg hother] at hstate
    exact h.observed other node state hnode hstate
  · intro state hstate
    rw [hwired.stateOf_modify hget,if_pos rfl] at hstate
    obtain ⟨old,_,rfl⟩ := Option.map_eq_some_iff.mp hstate
    cases response with
    | none => exact .inr (.inr rfl)
    | some latency => exact .inr (.inr rfl)

/-- A state that is the same in what was observed, or new, tells the same. -/
theorem Told.states (h : s.Told) {t : Poller κ} (hdata : t.data = s.data) (hnotices : t.notices = s.notices)
    (hstate : ∀ key state, t.stateOf key = some state → state.toDeviceScheduleState = {} ∨
      ∃ old, s.stateOf key = some old ∧ state.toDeviceScheduleState = old.toDeviceScheduleState) : t.Told := by
  refine ⟨hnotices ▸ h.changes,?_,?_⟩
  · rw [hdata,hnotices]
    exact h.last
  · intro key node state hnode hsome
    rw [hdata] at hnode
    obtain hfresh | ⟨old,hold,hsame⟩ := hstate key state hsome
    · exact .inl hfresh
    · rw [hsame]
      exact h.observed key node old hnode hold

theorem Told.create (h : s.Told) (hwired : s.Wired) (key : κ) : (s.getState key).1.Told := by
  obtain ⟨objects,states,hspec,_⟩ := s.getState_spec key
  apply h.states (by rw [hspec]) (by rw [hspec])
  intro other state hstate
  rw [getState] at hstate
  cases hkey : Dict.get key s.states with
  | some i =>
    rw [hkey] at hstate
    exact .inr ⟨state,hstate,rfl⟩
  | none =>
    rw [hkey] at hstate
    obtain ⟨j,hj,hstate⟩ := Option.bind_eq_some_iff.mp hstate
    rw [Dict.get_insert] at hj
    split at hj
    · cases hj
      rw [List.getElem?_concat_length] at hstate
      cases hstate
      exact .inl rfl
    · rw [List.getElem?_append_left (hwired.stored _ (Dict.mem_of_get hj))] at hstate
      exact .inr ⟨state,Option.bind_eq_some_iff.mpr ⟨j,hj,hstate⟩,rfl⟩

theorem Told.fire (h : s.Told) (hwired : s.Wired) (key : κ) (fast normal : Bool) (epcs : Finset Epc) :
    (s.fire key fast normal epcs).Told := by
  obtain ⟨objects,states,hspec,_⟩ := s.getState_spec key
  apply (h.create hwired key).states (by rw [Poller.fire]) (by rw [Poller.fire])
  intro other state hstate
  obtain ⟨j,hj,hstate⟩ := Option.bind_eq_some_iff.mp hstate
  obtain ⟨_,hstate⟩ | ⟨rfl,old,hold,rfl⟩ := modify_eq_some hstate
  · exact .inr ⟨state,Option.bind_eq_some_iff.mpr ⟨j,hj,hstate⟩,rfl⟩
  · exact .inr ⟨old,Option.bind_eq_some_iff.mpr ⟨_,hj,hold⟩,rfl⟩

theorem Told.move {t : Poller κ} (h : s.Told) (hwired : s.Wired) (hmove : s.Move t) : t.Told := by
  cases hmove with
  | control => exact ⟨h.changes,h.last,h.observed⟩
  | register key node hnew => exact h.register key hnew
  | change key node hold havailable => exact h.change hold havailable
  | forget key =>
    have hkept : ∀ other node, Dict.get other (s.data.filter fun e => decide (e.1 ≠ key)) = some node →
        Dict.get other s.data = some node := by
      intro other node hnode
      rw [Dict.get_filter fun k => decide (k ≠ key)] at hnode
      exact (Option.ite_none_right_eq_some.mp hnode).2
    exact ⟨h.changes,fun other node hnode => h.last other node (hkept other node hnode),
      fun other node state hnode => h.observed other node state (hkept other node hnode)⟩
  | drop keep =>
    refine h.states (t := s.dropStates keep) rfl rfl ?_
    intro key state hstate
    obtain ⟨i,hi,hstate⟩ := Option.bind_eq_some_iff.mp hstate
    rw [dropStates,Dict.get_filter] at hi
    have hi := (Option.ite_none_right_eq_some.mp hi).2
    exact .inr ⟨state,Option.bind_eq_some_iff.mpr ⟨i,hi,hstate⟩,rfl⟩
  | create key => exact h.create hwired key
  | fire key fast normal epcs => exact h.fire hwired key fast normal epcs
  | finish | request => exact ⟨h.changes,h.last,h.observed⟩
  | observe response htask hlive htakes =>
    exact h.observe hwired (hwired.state_of_takes htask hlive htakes) response

/-- After every run the availabilities that were emitted for a device since its registration alternate, the
device has the last one of them, and once its state has observed anything this is whether the last poll was
answered, as the backoff of its intervals has it. -/
theorem availability_told {tiers : PollerTiers} (h : Reachable step {tiers} s) (key : κ) :
    (emittedFor s.notices key).IsChain (· ≠ ·) ∧
    ∀ node, Dict.get key s.data = some node → node.pollingAvailable = (emittedFor s.notices key).getLast? ∧
      ∀ state, s.stateOf key = some state → Observed state.toDeviceScheduleState node.pollingAvailable := by
  have htold : s.Told := invariant_of_wired Told (told_start tiers) (fun _ _ hs ht hmove => ht.move hs hmove) h
  exact ⟨htold.changes key,fun node hnode =>
    ⟨htold.last key node hnode,fun state hstate => htold.observed key node state hnode hstate⟩⟩

/-- The meter answers, then does not, twice. -/
theorem availability_told_meter : ∃ s : Poller String, emittedFor s.notices "meter" = [true,false] ∧
    ((emittedFor s.notices "meter").IsChain (· ≠ ·) ∧
      ∀ node, Dict.get "meter" s.data = some node →
        node.pollingAvailable = (emittedFor s.notices "meter").getLast? ∧
        ∀ state, s.stateOf "meter" = some state → Observed state.toDeviceScheduleState node.pollingAvailable) := by
  have hrun : (exec step {tiers := ({} : PollerArguments).tiers} (firstCycle ++
      [.respond 0 (some 2),.elapse 60,.wake fun _ => 0,.begin 1,.respond 1 none,
        .elapse 600,.wake fun _ => 0,.begin 2,.respond 2 none])).any
      (fun s => emittedFor s.notices "meter" == [true,false]) = true := by decide +kernel
  obtain ⟨s,hs,hemitted⟩ := (Option.any_eq_true _ _).mp hrun
  exact ⟨s,beq_iff_eq.mp hemitted,availability_told (reachable_of_exec hs) "meter"⟩

end Poller
end Pyhems.Poll

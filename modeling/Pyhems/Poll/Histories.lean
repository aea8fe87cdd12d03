import Pyhems.Poll.Availability
import Pyhems.Poll.Wakes

/-! A poller over its history. The scheduling states that the loop and the interleaved cycles keep are those
of the history of what was fired, answered, removed and stopped, so the intervals go by that history. -/
namespace Pyhems.Poll
open Library Device Protocol Relation Transition
open Get (Epc DeviceScheduleState PollerArguments PollerTiers PropertyPoller PollerEvent)
variable {κ : Type} [DecidableEq κ]

namespace Poller

/-- The devices whose states `_cleanup_stale` removes. -/
def staleKeys (s : Poller κ) : List κ := (s.states.filter fun e => !(Dict.get e.1 s.data).isSome).map Prod.fst

/-- What an event adds to the history of the scheduling states. -/
def history (s : Poller κ) : PollEvent κ → List (PollerEvent κ)
  | .stop => [.stopped]
  | .wake drift =>
    s.staleKeys.map .removed ++
      ((s.cleanupStale.schedulePolls drift).fired.drop s.fired.length).map fun f => .fired f.deviceKey
  | .respond task response =>
    match s.tasks[task]? with
    | some t => [.polled t.deviceKey response]
    | none => []
  | _ => []

def runHistory (s : Poller κ) : List (PollEvent κ) → List (PollerEvent κ)
  | [] => []
  | event :: events =>
    match s.step event with
    | some t => s.history event ++ t.runHistory events
    | none => []

variable {s : Poller κ} {key : κ}

theorem schedule_state (s : Poller κ) (key : κ) :
    s.schedule.state key = (s.stateOf key).map (·.toDeviceScheduleState) := rfl

/-- The states after a change of one of them. -/
theorem schedule_update {t : Poller κ} {f : DeviceScheduleState → DeviceScheduleState} (htiers : t.tiers = s.tiers)
    (hkey : (t.stateOf key).map (·.toDeviceScheduleState) = some (f ((s.schedule.state key).getD {})))
    (hothers : ∀ other, other ≠ key → t.stateOf other = s.stateOf other) :
    t.schedule = s.schedule.update key f := by
  rw [schedule,htiers,PropertyPoller.update]
  apply congrArg (PropertyPoller.mk s.tiers)
  funext other
  by_cases hother : other = key
  · subst hother
    rw [Function.update_self]
    exact hkey
  · rw [Function.update_of_ne hother,hothers other hother]
    rfl

/-! ### Removals -/

theorem foldl_removed (keys : List κ) (poller : PropertyPoller κ) :
    (keys.map PollerEvent.removed).foldl PropertyPoller.step poller =
      {poller with state := fun key => if key ∈ keys then none else poller.state key} := by
  induction keys generalizing poller with
  | nil => rfl
  | cons removed keys ih =>
    rw [List.map_cons,List.foldl_cons,ih]
    apply congrArg (PropertyPoller.mk poller.tiers)
    funext key
    by_cases hkey : key = removed
    · subst hkey
      rw [PropertyPoller.step,poller.remove_state_self,ite_self,if_pos List.mem_cons_self]
    · rw [PropertyPoller.step,poller.remove_state_of_ne hkey]
      simp only [List.mem_cons,hkey,false_or]

theorem stateOf_dropStates (keep : κ → Bool) (key : κ) :
    (s.dropStates keep).stateOf key = if keep key then s.stateOf key else none := by
  rw [stateOf,dropStates,Dict.get_filter]
  split
  · rfl
  · rfl

theorem schedule_cleanupStale :
    s.cleanupStale.schedule = (s.staleKeys.map PollerEvent.removed).foldl PropertyPoller.step s.schedule := by
  rw [foldl_removed,schedule]
  apply congrArg (PropertyPoller.mk s.tiers)
  funext key
  rw [cleanupStale,stateOf_dropStates]
  cases hnode : (Dict.get key s.data).isSome with
  | true =>
    have hkept : key ∉ s.staleKeys := by
      intro hstale
      obtain ⟨e,he,rfl⟩ := List.mem_map.mp hstale
      have hgone := (List.mem_filter.mp he).2
      rw [hnode] at hgone
      cases hgone
    rw [if_neg hkept]
    rfl
  | false =>
    rw [if_neg Bool.false_ne_true]
    by_cases hstale : key ∈ s.staleKeys
    · rw [if_pos hstale]
      rfl
    · have habsent : key ∉ s.states.map Prod.fst := by
        intro hmem
        obtain ⟨e,he,rfl⟩ := List.mem_map.mp hmem
        have hdropped : (!(Dict.get e.1 s.data).isSome) = true := by rw [hnode]; rfl
        exact hstale (List.mem_map_of_mem (List.mem_filter.mpr ⟨he,hdropped⟩))
      have hnone : s.stateOf key = none := by
        rw [stateOf,Dict.get_eq_none habsent]
        rfl
      rw [if_neg hstale]
      exact congrArg (Option.map _) hnone.symm

/-! ### Firings and responses -/

theorem schedule_fire (h : s.Wired) (key : κ) (fast normal : Bool) (epcs : Finset Epc) :
    (s.fire key fast normal epcs).schedule = s.schedule.step (.fired key) := by
  obtain ⟨objects,states,hfire⟩ := s.fire_spec key fast normal epcs
  apply schedule_update (by rw [hfire])
  · obtain ⟨objects,states,hstate,hget⟩ := s.getState_spec key
    have hobject := h.getState_object key
    rw [fire,stateOf]
    simp only [hstate] at hobject ⊢
    rw [hget,Option.bind_some,List.getElem?_modify_eq,hobject]
    rw [schedule_state]
    cases s.stateOf key <;> rfl
  · exact fun other hother => stateOf_fire h hother fast normal epcs

/-- The changes to the scheduling states are those of the cycles that were fired. -/
def Fires (s t : Poller κ) : Prop :=
  ∃ fired, t.fired = s.fired ++ fired ∧
    t.schedule = (fired.map fun f => PollerEvent.fired f.deviceKey).foldl PropertyPoller.step s.schedule

theorem Fires.refl (s : Poller κ) : s.Fires s := ⟨[],(List.append_nil _).symm,rfl⟩

theorem Fires.trans {t u : Poller κ} (h : s.Fires t) (h' : t.Fires u) : s.Fires u := by
  obtain ⟨fired,hfired,hschedule⟩ := h
  obtain ⟨fired',hfired',hschedule'⟩ := h'
  refine ⟨fired ++ fired',?_,?_⟩
  · rw [hfired',hfired,List.append_assoc]
  · rw [hschedule',hschedule,List.map_append,List.foldl_append]

theorem Wired.fires (h : s.Wired) (key : κ) (fast normal : Bool) (epcs : Finset Epc) :
    s.Fires (s.fire key fast normal epcs) := by
  obtain ⟨objects,states,hspec⟩ := s.fire_spec key fast normal epcs
  exact ⟨[s.firing key fast normal epcs],by rw [hspec],schedule_fire h key fast normal epcs⟩

/-- The loop fires cycles one after the other. -/
theorem Wired.fires_foldl (h : s.Wired) {now : ℚ} (hnow : now ≤ s.now) (drift : κ → ℚ≥0)
    (entries : List (κ × PolledNode)) :
    s.Fires (entries.foldl (fun t entry => t.scheduleDevice now drift entry.1 entry.2) s) := by
  induction entries generalizing s with
  | nil => exact .refl s
  | cons entry entries ih =>
    have hlater := (moves_scheduleDevice hnow drift entry.1 entry.2).now_le
    have hrest := ih (h.scheduleDevice entry.1 entry.2 hnow) (hnow.trans hlater)
    refine Fires.trans ?_ hrest
    obtain hsame | ⟨_,fast,normal,_,hfire⟩ := scheduleDevice_cases (s := s) now drift entry.1 entry.2
    · rw [hsame]
      exact .refl s
    · rw [hfire]
      exact (h.clock (s.now+drift entry.1)).fires entry.1 fast normal _

theorem schedule_observe (h : s.Wired) {i : Nat} (hget : Dict.get key s.states = some i) (response : Option ℚ) :
    (s.observe i key response).schedule = s.schedule.step (.polled key response) := by
  obtain ⟨data,notices,hobserve⟩ := s.observe_spec i key response
  have hmodify := h.stateOf_modify hget (·.observe response)
  obtain ⟨state,hstate⟩ : ∃ state, s.stateOf key = some state := by
    rw [stateOf,hget]
    exact ⟨_,List.getElem?_eq_getElem (h.stored _ (Dict.mem_of_get hget))⟩
  rw [PropertyPoller.step]
  apply schedule_update (by rw [hobserve])
  · rw [hobserve]
    have hkey := (hmodify key).trans (if_pos rfl)
    rw [hstate] at hkey
    exact (congrArg (Option.map _) hkey).trans (by rw [schedule_state,hstate]; rfl)
  · intro other hother
    rw [hobserve]
    exact (hmodify other).trans (if_neg hother)

/-! ### Steps and runs -/

theorem schedule_nextChunk (task i : Nat) (key : κ) (remaining : List Epc) :
    (s.nextChunk task i key remaining).schedule = s.schedule := by
  rw [nextChunk]
  split
  · rfl
  · split
    · rfl
    · split
      · rfl
      · split <;> rfl

/-- A step does to the scheduling states what its history says. -/
theorem step_schedule {t : Poller κ} (h : s.Wired) {event : PollEvent κ} (hstep : s.step event = some t) :
    t.schedule = (s.history event).foldl PropertyPoller.step s.schedule := by
  cases event with
  | stop =>
    cases hstep
    apply congrArg (PropertyPoller.mk s.tiers)
    funext key
    exact congrArg (Option.map _) (stateOf_dropStates (fun _ => false) key)
  | wake drift =>
    obtain ⟨_,hstep⟩ := Option.ite_none_right_eq_some.mp hstep
    cases hstep
    have hcleaned : s.cleanupStale.Wired := h.dropStates _
    obtain ⟨fired,hfired,hschedule⟩ := hcleaned.fires_foldl le_rfl drift s.cleanupStale.data
    have hdrop : (s.cleanupStale.schedulePolls drift).fired.drop s.fired.length = fired := by
      rw [schedulePolls,hfired]
      exact List.drop_left
    rw [history,hdrop,List.foldl_append,← schedule_cleanupStale]
    exact hschedule
  | begin task =>
    rw [step] at hstep
    split at hstep
    · next key epcs cancelled htask =>
      cases cancelled with
      | true =>
        cases hstep
        rfl
      | false =>
        obtain ⟨i,_,hget,_⟩ := h.held task _ htask rfl
        have hstate : s.getState key = (s,i) := by
          rw [getState,hget]
        rw [if_neg Bool.false_ne_true,hstate] at hstep
        cases hstep
        exact schedule_nextChunk task i key epcs
    · cases hstep
  | respond task response =>
    rw [step] at hstep
    split at hstep
    · next key i chunk remaining htask =>
      have hget : Dict.get key s.states = some i := h.state_of_takes htask rfl rfl
      have hobserve := schedule_observe h hget response
      rw [history,htask]
      cases response with
      | none =>
        cases hstep
        exact hobserve
      | some latency =>
        cases hstep
        rw [schedule_nextChunk]
        exact hobserve
    · cases hstep
  | interrupt task exn =>
    rw [step] at hstep
    split at hstep
    · cases hstep
      rfl
    · cases hstep
  | subscription call =>
    obtain ⟨_,_,rfl⟩ := Option.map_eq_some_iff.mp hstep
    rfl
  | change key node =>
    obtain ⟨_,_,rfl⟩ := Option.map_eq_some_iff.mp hstep
    rfl
  | elapse | start | register | forget | learn =>
    cases hstep
    rfl

theorem exec_schedule {t : Poller κ} {events : List (PollEvent κ)} (h : s.Wired) (hrun : exec step s events = some t) :
    t.schedule = (s.runHistory events).foldl PropertyPoller.step s.schedule := by
  induction events generalizing s with
  | nil =>
    cases hrun
    rfl
  | cons event events ih =>
    obtain ⟨u,hu,hrest⟩ := Option.bind_eq_some_iff.mp hrun
    have hwired : u.Wired := Simulation.preserved Wired (fun _ _ ha hmove => ha.move hmove) (step_moves hu) h
    rw [ih hwired hrest,step_schedule h hu,runHistory,hu,List.foldl_append]

/-- After every run the scheduling states are those of its history, so that the latency of a device is the
moving average of those that were observed since its state was last dropped. -/
theorem schedule_after {arguments : PollerArguments} {events : List (PollEvent κ)}
    (hrun : exec step {tiers := arguments.tiers} events = some s) :
    let history := runHistory ({tiers := arguments.tiers} : Poller κ) events
    s.schedule = PropertyPoller.after arguments history ∧
    ∀ key, s.schedule.latencyEwma key =
      MovingAverage.movingAverage Get.latencyEwmaAlpha (Get.recentLatencies history key) := by
  intro history
  have hschedule : s.schedule = PropertyPoller.after arguments history := exec_schedule (wired_start _) hrun
  refine ⟨hschedule,?_⟩
  intro key
  rw [hschedule]
  exact PropertyPoller.after_latencyEwma arguments history key

/-- The meter answers after two seconds, then after four. -/
def answeredTwice : List (PollEvent String) :=
  firstCycle ++ [.respond 0 (some 2),.elapse 60,.wake fun _ => 0,.begin 1,.respond 1 (some 4)]

theorem schedule_after_meter : ∃ s : Poller String, s.schedule.latencyEwma "meter" = some (13/5) ∧
    let history := runHistory ({tiers := ({} : PollerArguments).tiers} : Poller String) answeredTwice
    s.schedule = PropertyPoller.after {} history ∧
    ∀ key, s.schedule.latencyEwma key =
      MovingAverage.movingAverage Get.latencyEwmaAlpha (Get.recentLatencies history key) := by
  have hrun : (exec step {tiers := ({} : PollerArguments).tiers} answeredTwice).any
      (fun s => s.schedule.latencyEwma "meter" == some (13/5)) = true := by decide +kernel
  obtain ⟨s,hs,hlatency⟩ := (Option.any_eq_true _ _).mp hrun
  exact ⟨s,beq_iff_eq.mp hlatency,schedule_after hs⟩

end Poller
end Pyhems.Poll

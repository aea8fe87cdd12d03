import Pyhems.Library.Simulation
import Pyhems.Poll.Scheduler

/-! What the steps of a poller are made of. Every step is a sequence of moves, so an invariant is
proved for each move and holds after every run. -/
namespace Pyhems.Poll
open Library Device Protocol Relation Transition
open Get (Epc PollerTiers Ending takeFirstBatch_eq)
variable {κ : Type}

def Stage.left : Stage → List Epc
  | .created epcs => epcs
  | .awaiting _ _ remaining => remaining
  | .ended _ => []

def Stage.active : Stage → Bool
  | .ended _ => false
  | _ => true

/-- A cycle that has not ended and is not about to be cancelled. -/
def CycleTask.live (t : CycleTask κ) : Bool := t.stage.active && !t.cancelRequested

theorem CycleTask.live_iff {t : CycleTask κ} :
    t.live = true ↔ t.stage.active = true ∧ t.cancelRequested = false := by
  rw [live,Bool.and_eq_true,Bool.not_eq_true']

theorem CycleTask.cancel_deviceKey (t : CycleTask κ) : t.cancel.deviceKey = t.deviceKey := by
  obtain ⟨key,stage,cancelled⟩ := t
  cases stage <;> rfl

theorem CycleTask.cancel_stage (t : CycleTask κ) : t.cancel.stage = t.stage := by
  obtain ⟨key,stage,cancelled⟩ := t
  cases stage <;> rfl

theorem CycleTask.cancel_live (t : CycleTask κ) : t.cancel.live = false := by
  obtain ⟨key,stage,cancelled⟩ := t
  cases stage <;> rfl

variable [DecidableEq κ]

namespace Poller
variable (s : Poller κ)

/-- The state object that a cycle works on: the one that it finds when it begins, then the one that it took. -/
def Takes (t : CycleTask κ) (i : Nat) : Prop :=
  match t.stage with
  | .created _ => Dict.get t.deviceKey s.states = some i
  | .awaiting j _ _ => j = i
  | .ended _ => False

/-- A tier was due for a device at some time up to now. -/
def WasDue (interval : ℚ) (last : Option ℚ) : Prop := ∃ now ≤ s.now, due now interval last = true

inductive Move : Poller κ → Prop where
  | control (now : ℚ) (running : Bool) (subscriptions : Subscriptions κ) (capacity : κ → Option Nat)
      (hnow : s.now ≤ now) : Move {s with now, running, subscriptions, capacity}
  | register (key : κ) (node : PolledNode) (hnew : node.pollingAvailable = none) :
      Move {s with data := Dict.insert key node s.data, notices := s.notices ++ [.registered key]}
  | change (key : κ) (node : PolledNode) {old : PolledNode} (hold : Dict.get key s.data = some old)
      (havailable : node.pollingAvailable = old.pollingAvailable) : Move {s with data := Dict.insert key node s.data}
  | forget (key : κ) : Move {s with data := s.data.filter fun e => decide (e.1 ≠ key)}
  | drop (keep : κ → Bool) : Move (s.dropStates keep)
  | create (key : κ) : Move (s.getState key).1
  | fire (key : κ) (fast normal : Bool) (epcs : Finset Epc) (hidle : s.isPolling key = false)
      (hnormal : normal = true →
        s.WasDue (s.schedule.effectiveInterval key) ((s.stateOf key).bind ScheduleState.lastPolledAt))
      (hfast : fast = true →
        s.WasDue (s.schedule.effectiveFastInterval key) ((s.stateOf key).bind ScheduleState.lastFastPolledAt)) :
      Move (s.fire key fast normal epcs)
  | finish {task : Nat} {t : CycleTask κ} (ending : Ending) (htask : s.tasks[task]? = some t)
      (hactive : t.stage.active = true) (hdone : ending = .answered → t.stage.left = []) :
      Move (s.setStage task (.ended ending))
  | request {task i : Nat} {t : CycleTask κ} {chunk rest : List Epc} (htask : s.tasks[task]? = some t)
      (hlive : t.live = true) (htakes : s.Takes t i) (hchunk : chunk ≠ [])
      (hperm : (chunk ++ rest).Perm t.stage.left) : Move (s.request task i chunk rest)
  | observe {task i : Nat} {t : CycleTask κ} (response : Option ℚ) (htask : s.tasks[task]? = some t)
      (hlive : t.live = true) (htakes : s.Takes t i) : Move (s.observe i t.deviceKey response)

abbrev Moves : Poller κ → Poller κ → Prop := ReflTransGen fun s t => s.Move t

/-! ### Steps -/

variable {s}

theorem moves_elapse (time : ℚ≥0) : s.Moves {s with now := s.now+time} :=
  .single (.control _ s.running s.subscriptions s.capacity (le_add_of_nonneg_right time.cast_nonneg))

/-- A firing is a move, after the clock has gone on. -/
theorem moves_firePoll {key : κ} {fast normal : Bool} (drift : ℚ≥0) (hidle : s.isPolling key = false)
    (hnormal : normal = true →
      s.WasDue (s.schedule.effectiveInterval key) ((s.stateOf key).bind ScheduleState.lastPolledAt))
    (hfast : fast = true →
      s.WasDue (s.schedule.effectiveFastInterval key) ((s.stateOf key).bind ScheduleState.lastFastPolledAt)) :
    s.Moves (s.firePoll key fast normal drift) := by
  have hdrift : s.now ≤ s.now+drift := le_add_of_nonneg_right drift.cast_nonneg
  rw [firePoll]
  cases Dict.get key s.data with
  | none => exact .refl
  | some node =>
    simp only
    split
    · exact .refl
    · refine (moves_elapse drift).tail (.fire key fast normal _ hidle ?_ ?_)
      · intro h
        obtain ⟨now,hnow,hdue⟩ := hnormal h
        exact ⟨now,hnow.trans hdrift,hdue⟩
      · intro h
        obtain ⟨now,hnow,hdue⟩ := hfast h
        exact ⟨now,hnow.trans hdrift,hdue⟩

theorem moves_scheduleDevice {now : ℚ} (hnow : now ≤ s.now) (drift : κ → ℚ≥0) (key : κ) (node : PolledNode) :
    s.Moves (s.scheduleDevice now drift key node) := by
  rw [scheduleDevice]
  split
  · exact .refl
  · next hidle =>
    split
    · exact .refl
    · simp only
      split
      · exact .refl
      · apply moves_firePoll (drift key) (Bool.eq_false_iff.mpr hidle)
        · intro h
          exact ⟨now,hnow,(Bool.and_eq_true _ _ ▸ h).2⟩
        · intro h
          exact ⟨now,hnow,(Bool.and_eq_true _ _ ▸ h).2⟩

/-- `_get_state` touches the state objects alone, and names the one of its device. -/
theorem getState_spec (key : κ) : ∃ objects states, (s.getState key).1 = {s with objects, states} ∧
    Dict.get key states = some (s.getState key).2 := by
  rw [getState]
  cases hkey : Dict.get key s.states with
  | none => exact ⟨_,_,rfl,(Dict.get_insert _ _ _ _).trans (if_pos rfl)⟩
  | some i => exact ⟨_,_,rfl,hkey⟩

theorem get_getState (key : κ) : Dict.get key (s.getState key).1.states = some (s.getState key).2 := by
  obtain ⟨objects,states,hstate,hget⟩ := s.getState_spec key
  rw [hstate]
  exact hget

/-- A firing touches the state objects, and adds a task. -/
theorem fire_spec (key : κ) (fast normal : Bool) (epcs : Finset Epc) : ∃ objects states,
    s.fire key fast normal epcs = {s with
      objects, states
      tasks := s.tasks ++ [⟨key,.created (epcs.sort (· ≤ ·)),false⟩]
      fired := s.fired ++ [s.firing key fast normal epcs]} := by
  rw [fire,getState]
  cases Dict.get key s.states <;> exact ⟨_,_,rfl⟩

/-- A response touches the state object of the cycle and the availability of the device. -/
theorem observe_spec (i : Nat) (key : κ) (response : Option ℚ) : ∃ data notices,
    s.observe i key response = {s with objects := s.objects.modify i (·.observe response), data, notices} := by
  rw [observe,setPollingAvailable]
  split
  · exact ⟨_,_,rfl⟩
  · split <;> exact ⟨_,_,rfl⟩

/-- The clock does not go back. -/
theorem Move.now_le {t : Poller κ} (h : s.Move t) : s.now ≤ t.now := by
  cases h with
  | control _ _ _ _ hnow => exact hnow
  | create key =>
    obtain ⟨objects,states,hstate,_⟩ := s.getState_spec key
    rw [hstate]
  | fire key fast normal epcs =>
    obtain ⟨objects,states,hfire⟩ := s.fire_spec key fast normal epcs
    rw [hfire]
  | observe response =>
    obtain ⟨data,notices,hobserve⟩ := s.observe_spec _ _ response
    rw [hobserve]
  | _ => exact le_rfl

theorem Moves.now_le {t : Poller κ} (h : s.Moves t) : s.now ≤ t.now := by
  induction h with
  | refl => exact le_rfl
  | tail _ ht ih => exact ih.trans ht.now_le

theorem moves_schedulePolls (drift : κ → ℚ≥0) : s.Moves (s.schedulePolls drift) := by
  suffices h : ∀ (data : List (κ × PolledNode)) (now : ℚ) (t : Poller κ), now ≤ t.now →
      t.Moves (data.foldl (fun t entry => t.scheduleDevice now drift entry.1 entry.2) t) from h _ _ _ le_rfl
  intro data now
  induction data with
  | nil => exact fun _ _ => .refl
  | cons entry data ih =>
    intro t hnow
    have hfirst := moves_scheduleDevice hnow drift entry.1 entry.2
    exact hfirst.trans (ih _ (hnow.trans hfirst.now_le))

/-- The head of the loop of a cycle ends it, or requests a chunk. -/
theorem moves_nextChunk {task i : Nat} {t : CycleTask κ} (htask : s.tasks[task]? = some t) (hlive : t.live = true)
    (htakes : s.Takes t i) : s.Moves (s.nextChunk task i t.deviceKey t.stage.left) := by
  have hactive : t.stage.active = true := (CycleTask.live_iff.mp hlive).1
  rw [nextChunk]
  split
  · next hleft => exact .single (.finish _ htask hactive fun _ => hleft)
  · split
    · exact .single (.finish _ htask hactive fun h => by cases h)
    · split
      · exact .single (.finish _ htask hactive fun h => by cases h)
      · next hbatch =>
        split
        · exact .single (.finish _ htask hactive fun h => by cases h)
        · next hchunk => exact .single (.request htask hlive htakes hchunk (takeFirstBatch_eq hbatch).perm)

theorem moves_begin {task : Nat} {t : Poller κ} (h : s.step (.begin task) = some t) : s.Moves t := by
  rw [step] at h
  split at h
  · next key epcs cancelled htask =>
    cases cancelled with
    | true =>
      cases h
      exact .single (.finish _ htask rfl nofun)
    | false =>
      cases h
      obtain ⟨objects,states,hstate,_⟩ := s.getState_spec key
      have htask' : (s.getState key).1.tasks[task]? = some ⟨key,.created epcs,false⟩ := by
        rw [hstate]
        exact htask
      exact .head (.create key) (moves_nextChunk htask' rfl (s.get_getState key))
  · cases h

theorem moves_respond {task : Nat} {response : Option ℚ} {t : Poller κ}
    (h : s.step (.respond task response) = some t) : s.Moves t := by
  rw [step] at h
  split at h
  · next key i chunk remaining htask =>
    have hobserve : s.Move (s.observe i key response) := .observe response htask rfl rfl
    have htask' : (s.observe i key response).tasks[task]? = some ⟨key,.awaiting i chunk remaining,false⟩ := by
      obtain ⟨data,notices,hobserve⟩ := s.observe_spec i key response
      rw [hobserve]
      exact htask
    cases response with
    | none =>
      cases h
      exact (ReflTransGen.single hobserve).tail (.finish _ htask' rfl nofun)
    | some latency =>
      cases h
      exact .head hobserve (moves_nextChunk htask' rfl rfl)
  · cases h

/-- Every step is a sequence of moves. -/
theorem step_moves {event : PollEvent κ} {t : Poller κ} (h : s.step event = some t) : s.Moves t := by
  cases event with
  | elapse time =>
    cases h
    exact moves_elapse time
  | start =>
    cases h
    exact .single (.control s.now true s.subscriptions s.capacity le_rfl)
  | stop =>
    cases h
    exact (ReflTransGen.single (.drop _)).tail (.control s.now false s.subscriptions s.capacity le_rfl)
  | wake drift =>
    obtain ⟨_,h⟩ := Option.ite_none_right_eq_some.mp h
    cases h
    exact .head (.drop _) (moves_schedulePolls drift)
  | begin task => exact moves_begin h
  | respond task response => exact moves_respond h
  | interrupt task exn =>
    rw [step] at h
    split at h
    · next htask =>
      cases h
      exact .single (.finish _ htask rfl nofun)
    · cases h
  | subscription call =>
    obtain ⟨subscriptions,_,rfl⟩ := Option.map_eq_some_iff.mp h
    exact .single (.control s.now s.running subscriptions s.capacity le_rfl)
  | register key classCode node =>
    cases h
    exact .single (.register key _ rfl)
  | change key node =>
    obtain ⟨old,hold,rfl⟩ := Option.map_eq_some_iff.mp h
    exact .single (.change key _ hold rfl)
  | forget key =>
    cases h
    exact .single (.forget key)
  | learn key capacity =>
    cases h
    exact .single (.control s.now s.running s.subscriptions _ le_rfl)

/-- What holds at the start and survives every move holds after every run. -/
theorem invariant (inv : Poller κ → Prop) {tiers : PollerTiers} (hstart : inv {tiers})
    (hmove : ∀ s t : Poller κ, inv s → s.Move t → inv t) (h : Reachable step {tiers} s) : inv s :=
  Simulation.invariant_of_view id (fun _ _ _ _ => step_moves) hmove hstart h

end Poller
end Pyhems.Poll

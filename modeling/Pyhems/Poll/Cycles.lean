import Pyhems.Poll.Moves

/-! The cycles of a poller. A cycle in progress is the one that the state of its device names, so a
device has at most one, and dropping the states reaches every cycle. -/
namespace Pyhems.Poll
open Library Device Protocol Relation Transition
open Get (Epc PollerArguments PollerTiers Ending)
variable {κ : Type}

theorem modify_eq_some {α : Type} {f : α → α} {i j : Nat} {l : List α} {b : α} (h : (l.modify i f)[j]? = some b) :
    j ≠ i ∧ l[j]? = some b ∨ j = i ∧ ∃ a, l[i]? = some a ∧ b = f a := by
  by_cases hj : j = i
  · subst hj
    rw [List.getElem?_modify_eq] at h
    obtain ⟨a,ha,rfl⟩ := Option.map_eq_some_iff.mp h
    exact .inr ⟨rfl,a,ha,rfl⟩
  · rw [List.getElem?_modify_ne f l (Ne.symm hj)] at h
    exact .inl ⟨hj,h⟩

theorem concat_eq_some {α : Type} {l : List α} {a b : α} {j : Nat} (h : (l ++ [b])[j]? = some a) :
    l[j]? = some a ∨ j = l.length ∧ b = a := by
  rw [List.getElem?_append] at h
  split at h
  · exact .inl h
  · obtain ⟨hzero,rfl⟩ := List.getElem?_eq_some_iff.mp h
    rw [List.length_singleton] at hzero
    exact .inr ⟨by omega,by simp⟩

namespace Poller

theorem dropStates_eq_some {s : Poller κ} {keep : κ → Bool} {task : Nat} {u : CycleTask κ}
    (h : (s.dropStates keep).tasks[task]? = some u) : ∃ t, s.tasks[task]? = some t ∧
      u = if task ∈ s.droppedCycles keep then t.cancel else t := by
  rw [dropStates,List.getElem?_mapIdx] at h
  obtain ⟨t,ht,rfl⟩ := Option.map_eq_some_iff.mp h
  exact ⟨t,ht,rfl⟩

variable [DecidableEq κ] {s : Poller κ}

/-- What the states of the devices and the cycles have to do with each other. -/
structure Wired (s : Poller κ) : Prop where
  keys : (s.states.map Prod.fst).Nodup
  distinct : (s.states.map Prod.snd).Nodup
  stored : ∀ e ∈ s.states, e.2 < s.objects.length
  held : ∀ task t, s.tasks[task]? = some t → t.live = true → ∃ i state, Dict.get t.deviceKey s.states = some i ∧
    s.objects[i]? = some state ∧ state.cycleTask = some task ∧ s.Takes t i
  own : ∀ e ∈ s.states, ∀ state, s.objects[e.2]? = some state → ∀ task, state.cycleTask = some task →
    ∃ t, s.tasks[task]? = some t ∧ t.deviceKey = e.1 ∧ t.cancelRequested = false

theorem wired_start (tiers : PollerTiers) : Wired ({tiers} : Poller κ) where
  keys := List.nodup_nil
  distinct := List.nodup_nil
  stored := nofun
  held := nofun
  own := nofun

/-- Devices that share a state object are the same. -/
theorem Wired.key_eq (h : s.Wired) {a b : κ} {i : Nat} (ha : Dict.get a s.states = some i)
    (hb : Dict.get b s.states = some i) : a = b := by
  have he := List.inj_on_of_nodup_map h.distinct (Dict.mem_of_get ha) (Dict.mem_of_get hb) rfl
  exact congrArg Prod.fst he

/-- A change of one state object changes the state of one device. -/
theorem Wired.stateOf_modify (h : s.Wired) {key : κ} {i : Nat} (hget : Dict.get key s.states = some i)
    (f : ScheduleState → ScheduleState) (other : κ) : stateOf {s with objects := s.objects.modify i f} other =
      if other = key then (s.stateOf key).map f else s.stateOf other := by
  by_cases hother : other = key
  · subst hother
    rw [if_pos rfl,stateOf,stateOf,hget,Option.bind_some,Option.bind_some,List.getElem?_modify_eq]
    rfl
  · rw [if_neg hother]
    simp only [stateOf]
    cases hj : Dict.get other s.states with
    | none => rfl
    | some j =>
      have hij : i ≠ j := by
        rintro rfl
        exact hother (h.key_eq hj hget)
      exact List.getElem?_modify_ne _ _ hij

/-- A device that is not being polled has no cycle in progress. -/
theorem Wired.idle (h : s.Wired) {task : Nat} {t : CycleTask κ} (htask : s.tasks[task]? = some t)
    (hidle : s.isPolling t.deviceKey = false) : t.live = false := by
  by_contra hlive
  obtain ⟨i,state,hget,hstate,hcycle,_⟩ := h.held task t htask (Bool.not_eq_false _ ▸ hlive)
  have hactive := (CycleTask.live_iff.mp (Bool.not_eq_false _ ▸ hlive)).1
  have hpolling : s.isPolling t.deviceKey = true := by
    rw [isPolling,stateOf,hget,Option.bind_some,hstate,Option.any_some,polling,hcycle,Option.bind_some,htask]
    obtain ⟨key,stage,cancelled⟩ := t
    cases stage with
    | ended _ => cases hactive
    | _ => rfl
  rw [hidle] at hpolling
  cases hpolling

/-! ### Moves -/

theorem Wired.create (h : s.Wired) (key : κ) : (s.getState key).1.Wired := by
  rw [getState]
  cases hkey : Dict.get key s.states with
  | some i => exact h
  | none =>
    have hnew : key ∉ s.states.map Prod.fst := by
      intro hmem
      obtain ⟨e,he,rfl⟩ := List.mem_map.mp hmem
      rw [(Dict.get_eq_some h.keys).mpr he] at hkey
      cases hkey
    have hinsert : Dict.insert key s.objects.length s.states = s.states ++ [(key,s.objects.length)] :=
      Dict.insert_of_notMem hnew
    refine ⟨Dict.nodup_keys_insert h.keys,?_,?_,?_,?_⟩
    · have hfresh : ∀ i ∈ s.states.map Prod.snd, i ≠ s.objects.length := by
        intro i hi
        obtain ⟨e,he,rfl⟩ := List.mem_map.mp hi
        exact (h.stored e he).ne
      simp only [hinsert,List.map_append,List.nodup_append]
      exact ⟨h.distinct,List.nodup_singleton _,fun i hi j hj => by
        rw [List.map_singleton,List.mem_singleton] at hj
        exact hj ▸ hfresh i hi⟩
    · intro e he
      simp only [hinsert,List.mem_append,List.mem_singleton,List.length_append,List.length_singleton] at he ⊢
      obtain he | rfl := he
      · exact (h.stored e he).trans (Nat.lt_succ_self _)
      · exact Nat.lt_succ_self _
    · intro task t htask hlive
      obtain ⟨i,state,hget,hstate,hcycle,htakes⟩ := h.held task t htask hlive
      have hother : key ≠ t.deviceKey := by
        rintro rfl
        rw [hkey] at hget
        cases hget
      have hget' : Dict.get t.deviceKey (Dict.insert key s.objects.length s.states) = some i := by
        rw [Dict.get_insert,if_neg hother,hget]
      refine ⟨i,state,hget',?_,hcycle,?_⟩
      · rw [List.getElem?_append_left (List.getElem?_eq_some_iff.mp hstate).1]
        exact hstate
      · rw [Takes] at htakes ⊢
        cases hstage : t.stage <;> simp_all
    · intro e he state hstate task hcycle
      simp only [hinsert,List.mem_append,List.mem_singleton] at he
      obtain he | rfl := he
      · simp only [List.getElem?_append_left (h.stored e he)] at hstate
        exact h.own e he state hstate task hcycle
      · simp only [List.getElem?_concat_length] at hstate
        cases hstate
        cases hcycle

theorem isPolling_getState {key : κ} (hidle : s.isPolling key = false) : (s.getState key).1.isPolling key = false := by
  rw [getState]
  cases hkey : Dict.get key s.states with
  | some i => exact hidle
  | none =>
    rw [isPolling,stateOf,Dict.get_insert,if_pos rfl,Option.bind_some,List.getElem?_concat_length]
    rfl

/-- A new cycle takes the place of one that has ended. -/
theorem Wired.launch (h : s.Wired) {key : κ} {i : Nat} (hget : Dict.get key s.states = some i)
    (hidle : s.isPolling key = false) {f : ScheduleState → ScheduleState}
    (hf : ∀ state, (f state).cycleTask = some s.tasks.length) (epcs : List Epc) (fired : List (Firing κ)) :
    Wired {s with
      objects := s.objects.modify i f
      tasks := s.tasks ++ [⟨key,.created epcs,false⟩]
      fired} := by
  refine ⟨h.keys,h.distinct,?_,?_,?_⟩
  · intro e he
    rw [List.length_modify]
    exact h.stored e he
  · intro task t htask hlive
    obtain htask | ⟨rfl,rfl⟩ := concat_eq_some htask
    · obtain ⟨j,state,hj,hstate,hcycle,htakes⟩ := h.held task t htask hlive
      have hne : i ≠ j := by
        rintro rfl
        have hdead := h.idle htask (h.key_eq hj hget ▸ hidle)
        rw [hlive] at hdead
        cases hdead
      exact ⟨j,state,hj,(List.getElem?_modify_ne f _ hne).trans hstate,hcycle,htakes⟩
    · have hi := List.getElem?_eq_getElem (h.stored _ (Dict.mem_of_get hget))
      exact ⟨i,_,hget,(List.getElem?_modify_eq f i _).trans (congrArg (Option.map f) hi),hf _,hget⟩
  · intro e he state hstate task hcycle
    obtain ⟨hne,hstate⟩ | ⟨heq,old,hold,rfl⟩ := modify_eq_some hstate
    · obtain ⟨t,htask,hown⟩ := h.own e he state hstate task hcycle
      exact ⟨t,(List.getElem?_append_left (List.getElem?_eq_some_iff.mp htask).1).trans htask,hown⟩
    · have hkey : e.1 = key := h.key_eq ((Dict.get_eq_some h.keys).mpr he) (heq ▸ hget)
      cases (hf old).symm.trans hcycle
      exact ⟨_,List.getElem?_concat_length,hkey.symm,rfl⟩

theorem Wired.fire (h : s.Wired) {key : κ} (hidle : s.isPolling key = false) (fast normal : Bool)
    (epcs : Finset Epc) : (s.fire key fast normal epcs).Wired := by
  exact (h.create key).launch (s.get_getState key) (isPolling_getState hidle) (fun _ => rfl) _ _

theorem Takes.index_eq {t : CycleTask κ} {i j : Nat} (hi : s.Takes t i) (hj : s.Takes t j) : i = j := by
  obtain ⟨key,stage,cancelled⟩ := t
  cases stage with
  | created _ => exact Option.some.inj (Eq.trans (Eq.symm hi) hj)
  | awaiting _ _ _ => exact Eq.trans (Eq.symm hi) hj
  | ended _ => cases hi

/-- A cycle goes on, with the state object that it has taken, or ends. -/
theorem Wired.setStage (h : s.Wired) {task : Nat} {stage : Stage}
    (hstage : ∀ t, s.tasks[task]? = some t → stage.active = true → t.stage.active = true ∧ ∃ i, s.Takes t i ∧
      ∀ cancelled, s.Takes ⟨t.deviceKey,stage,cancelled⟩ i) : (s.setStage task stage).Wired := by
  refine ⟨h.keys,h.distinct,h.stored,?_,?_⟩
  · intro k t hk hlive
    obtain ⟨_,hk⟩ | ⟨rfl,u,hu,rfl⟩ := modify_eq_some hk
    · exact h.held k t hk hlive
    · obtain ⟨hactive,hcancelled⟩ := CycleTask.live_iff.mp hlive
      obtain ⟨hactive',i,htakes,htakes'⟩ := hstage u hu hactive
      obtain ⟨j,state,hj,hstate,hcycle,hold⟩ := h.held k u hu (CycleTask.live_iff.mpr ⟨hactive',hcancelled⟩)
      cases htakes.index_eq hold
      exact ⟨i,state,hj,hstate,hcycle,htakes' _⟩
  · intro e he state hstate k hcycle
    obtain ⟨t,hk,hkey,hcancelled⟩ := h.own e he state hstate k hcycle
    rw [Poller.setStage]
    by_cases hne : task = k
    · subst hne
      exact ⟨_,(List.getElem?_modify_eq _ _ _).trans (congrArg (Option.map _) hk),hkey,hcancelled⟩
    · exact ⟨t,(List.getElem?_modify_ne _ _ hne).trans hk,hkey,hcancelled⟩

theorem Wired.observe (h : s.Wired) (i : Nat) (key : κ) (response : Option ℚ) : (s.observe i key response).Wired := by
  obtain ⟨data,notices,hobserve⟩ := s.observe_spec i key response
  rw [hobserve]
  refine ⟨h.keys,h.distinct,?_,?_,?_⟩
  · intro e he
    rw [List.length_modify]
    exact h.stored e he
  · intro task t htask hlive
    obtain ⟨j,state,hj,hstate,hcycle,htakes⟩ := h.held task t htask hlive
    by_cases hij : i = j
    · subst hij
      exact ⟨i,_,hj,(List.getElem?_modify_eq _ _ _).trans (congrArg (Option.map _) hstate),hcycle,htakes⟩
    · exact ⟨j,state,hj,(List.getElem?_modify_ne _ _ hij).trans hstate,hcycle,htakes⟩
  · intro e he state hstate task hcycle
    obtain ⟨_,hstate⟩ | ⟨rfl,old,hold,rfl⟩ := modify_eq_some hstate
    · exact h.own e he state hstate task hcycle
    · exact h.own e he old hold task hcycle

/-- The cycles that are cancelled with the states of devices are cycles of these devices. -/
theorem Wired.droppedCycles_key (h : s.Wired) {keep : κ → Bool} {task : Nat} {t : CycleTask κ}
    (htask : s.tasks[task]? = some t) (hdropped : task ∈ s.droppedCycles keep) : keep t.deviceKey = false := by
  obtain ⟨e,he,hcycle⟩ := List.mem_filterMap.mp hdropped
  obtain ⟨he,hkeep⟩ := List.mem_filter.mp he
  obtain ⟨state,hstate,hcycle⟩ := Option.bind_eq_some_iff.mp hcycle
  obtain ⟨u,hu,hkey,_⟩ := h.own e he state hstate task hcycle
  cases htask.symm.trans hu
  rw [hkey]
  exact Bool.not_eq_true' _ ▸ hkeep

/-- Dropping the states of devices reaches their cycles in progress. -/
theorem Wired.mem_droppedCycles (h : s.Wired) {keep : κ → Bool} {task : Nat} {t : CycleTask κ}
    (htask : s.tasks[task]? = some t) (hlive : t.live = true) (hkeep : keep t.deviceKey = false) :
    task ∈ s.droppedCycles keep := by
  obtain ⟨i,state,hget,hstate,hcycle,_⟩ := h.held task t htask hlive
  have he : (t.deviceKey,i) ∈ s.states.filter fun e => !keep e.1 :=
    List.mem_filter.mpr ⟨Dict.mem_of_get hget,by rw [hkeep]; rfl⟩
  exact List.mem_filterMap.mpr ⟨_,he,Option.bind_eq_some_iff.mpr ⟨state,hstate,hcycle⟩⟩

theorem Wired.dropStates (h : s.Wired) (keep : κ → Bool) : (s.dropStates keep).Wired := by
  refine ⟨h.keys.sublist (List.filter_sublist.map _),h.distinct.sublist (List.filter_sublist.map _),?_,?_,?_⟩
  · exact fun e he => h.stored e (List.mem_filter.mp he).1
  · intro task u hu hlive
    obtain ⟨t,htask,rfl⟩ := dropStates_eq_some hu
    split at hlive
    · rw [t.cancel_live] at hlive
      cases hlive
    · next hdropped =>
      rw [if_neg hdropped]
      have hkeep : keep t.deviceKey = true :=
        Bool.not_eq_false _ ▸ mt (h.mem_droppedCycles htask hlive) hdropped
      obtain ⟨i,state,hget,hstate,hcycle,htakes⟩ := h.held task t htask hlive
      have hget' : Dict.get t.deviceKey (s.dropStates keep).states = some i := by
        rw [Poller.dropStates,Dict.get_filter,if_pos hkeep,hget]
      refine ⟨i,state,hget',hstate,hcycle,?_⟩
      rw [Takes] at htakes ⊢
      cases hstage : t.stage <;> simp_all
  · intro e he state hstate task hcycle
    obtain ⟨he,hkeep⟩ := List.mem_filter.mp he
    obtain ⟨t,htask,hkey,hcancelled⟩ := h.own e he state hstate task hcycle
    have hdropped : task ∉ s.droppedCycles keep := by
      intro hdropped
      have hgone := h.droppedCycles_key htask hdropped
      rw [hkey,hkeep] at hgone
      cases hgone
    refine ⟨t,?_,hkey,hcancelled⟩
    rw [Poller.dropStates,List.getElem?_mapIdx,htask,Option.map_some,if_neg hdropped]

theorem Wired.move {t : Poller κ} (h : s.Wired) (hmove : s.Move t) : t.Wired := by
  cases hmove with
  | control | register | change | forget => exact ⟨h.keys,h.distinct,h.stored,h.held,h.own⟩
  | drop keep => exact h.dropStates keep
  | create key => exact h.create key
  | fire key fast normal epcs hidle => exact h.fire hidle fast normal epcs
  | finish ending htask hactive => exact h.setStage nofun
  | @request task i t chunk rest htask hlive htakes =>
    have hstage : (s.setStage task (.awaiting i chunk rest)).Wired := by
      apply h.setStage
      intro u hu _
      cases htask.symm.trans hu
      exact ⟨(CycleTask.live_iff.mp hlive).1,i,htakes,fun _ => rfl⟩
    exact ⟨hstage.keys,hstage.distinct,hstage.stored,hstage.held,hstage.own⟩
  | observe response => exact h.observe _ _ response

theorem wired_of_reachable {tiers : PollerTiers} (h : Reachable step {tiers} s) : s.Wired :=
  invariant Wired (wired_start tiers) (fun _ _ hs ht => hs.move ht) h

/-- An invariant of the moves of wired pollers. -/
theorem invariant_of_wired (inv : Poller κ → Prop) {tiers : PollerTiers} (hstart : inv {tiers})
    (hmove : ∀ s t : Poller κ, s.Wired → inv s → s.Move t → inv t) (h : Reachable step {tiers} s) : inv s := by
  have hboth : s.Wired ∧ inv s := by
    apply invariant (fun s => s.Wired ∧ inv s) ⟨wired_start tiers,hstart⟩ _ h
    intro u v hu hv
    exact ⟨hu.1.move hv,hmove u v hu.1 hu.2 hv⟩
  exact hboth.2

/-! ### Exclusion -/

/-- The task is a cycle of the device that is in progress. -/
def Running (s : Poller κ) (key : κ) (task : Nat) : Prop :=
  ∃ t, s.tasks[task]? = some t ∧ t.deviceKey = key ∧ t.live = true

/-- After every run the states tell which devices have a cycle in progress, and no device has two. -/
theorem cycle_exclusive {tiers : PollerTiers} (h : Reachable step {tiers} s) (key : κ) :
    (s.isPolling key = true ↔ ∃ task, s.Running key task) ∧
    ∀ task other, s.Running key task → s.Running key other → task = other := by
  have hwired := wired_of_reachable h
  refine ⟨⟨?_,?_⟩,?_⟩
  · intro hpolling
    obtain ⟨state,hstate,hpolling⟩ := (Option.any_eq_true _ _).mp hpolling
    obtain ⟨i,hget,hstate⟩ := Option.bind_eq_some_iff.mp hstate
    cases hcycle : state.cycleTask with
    | none =>
      rw [polling,hcycle] at hpolling
      cases hpolling
    | some task =>
      obtain ⟨t,htask,hkey,hcancelled⟩ := hwired.own _ (Dict.mem_of_get hget) state hstate task hcycle
      refine ⟨task,t,htask,hkey,CycleTask.live_iff.mpr ⟨?_,hcancelled⟩⟩
      rw [polling,hcycle,Option.bind_some,htask] at hpolling
      obtain ⟨_,stage,_⟩ := t
      cases stage with
      | ended _ => cases hpolling
      | _ => rfl
  · rintro ⟨task,t,htask,rfl,hlive⟩
    by_contra hidle
    rw [hwired.idle htask (Bool.eq_false_iff.mpr hidle)] at hlive
    cases hlive
  · rintro task other ⟨t,htask,rfl,hlive⟩ ⟨u,hother,hkey,hlive'⟩
    obtain ⟨i,state,hget,hstate,hcycle,_⟩ := hwired.held task t htask hlive
    obtain ⟨j,state',hget',hstate',hcycle',_⟩ := hwired.held other u hother hlive'
    rw [hkey] at hget'
    cases hget.symm.trans hget'
    cases hstate.symm.trans hstate'
    exact Option.some.inj (hcycle.symm.trans hcycle')

def meterNode : NodeState := {Subscriptions.polledNode with pollEpcs := {0xE0}}

/-- The first cycle of a meter requests its EPC. -/
def firstCycle : List (PollEvent String) :=
  [.register "meter" 0x0287 meterNode,.start,.elapse 10,.wake fun _ => 0,.begin 0]

theorem cycle_exclusive_meter : ∃ s : Poller String, s.isPolling "meter" = true ∧
    ((s.isPolling "meter" = true ↔ ∃ task, s.Running "meter" task) ∧
      ∀ task other, s.Running "meter" task → s.Running "meter" other → task = other) := by
  have hrun : (exec step {tiers := ({} : PollerArguments).tiers} firstCycle).any (·.isPolling "meter") = true := by
    decide +kernel
  obtain ⟨s,hs,hpolling⟩ := (Option.any_eq_true _ _).mp hrun
  exact ⟨s,hpolling,cycle_exclusive (reachable_of_exec hs) "meter"⟩

/-! ### Stopping -/

/-- Nothing is in progress, and nothing was done since a state of the poller. -/
structure Quiet (s t : Poller κ) : Prop where
  stopped : t.running = false
  states : t.states = []
  idle : ∀ (task : Nat) (u : CycleTask κ), t.tasks[task]? = some u → u.live = false
  fired : t.fired = s.fired
  requested : t.requested = s.requested
  changes : ∀ key available,
    t.notices.count (.availabilityChanged key available) = s.notices.count (.availabilityChanged key available)

theorem Wired.quiet_stop (h : s.Wired) : s.Quiet s.stop where
  stopped := rfl
  states := List.filter_eq_nil_iff.mpr fun _ _ => Bool.false_ne_true
  idle task u hu := by
    obtain ⟨t,htask,rfl⟩ := dropStates_eq_some hu
    split
    · exact t.cancel_live
    · next hdropped => exact Bool.eq_false_iff.mpr fun hlive => hdropped (h.mem_droppedCycles htask hlive rfl)
  fired := rfl
  requested := rfl
  changes _ _ := rfl

variable {t u : Poller κ}

theorem Quiet.dropStates (h : s.Quiet t) (keep : κ → Bool) : s.Quiet (t.dropStates keep) := by
  refine ⟨h.stopped,?_,?_,h.fired,h.requested,h.changes⟩
  · rw [Poller.dropStates,h.states]
    rfl
  · intro task u hu
    obtain ⟨v,hv,rfl⟩ := dropStates_eq_some hu
    split
    · exact v.cancel_live
    · exact h.idle task v hv

theorem Quiet.finish (h : s.Quiet t) (task : Nat) (ending : Ending) : s.Quiet (t.setStage task (.ended ending)) := by
  refine ⟨h.stopped,h.states,?_,h.fired,h.requested,h.changes⟩
  intro k v hv
  obtain ⟨_,hv⟩ | ⟨_,_,_,rfl⟩ := modify_eq_some hv
  · exact h.idle k v hv
  · rfl

/-- A stopped poller stays quiet as long as it is not started: tasks only end. -/
theorem Quiet.step {event : PollEvent κ} (h : s.Quiet t) (hstart : event ≠ .start) (hstep : t.step event = some u) :
    s.Quiet u := by
  cases event with
  | start => exact absurd rfl hstart
  | elapse | forget | learn =>
    cases hstep
    exact ⟨h.stopped,h.states,h.idle,h.fired,h.requested,h.changes⟩
  | stop =>
    cases hstep
    have hdrop := h.dropStates fun _ => false
    exact ⟨rfl,hdrop.states,hdrop.idle,hdrop.fired,hdrop.requested,hdrop.changes⟩
  | wake drift =>
    rw [Poller.step,h.stopped] at hstep
    cases hstep
  | begin task =>
    rw [Poller.step] at hstep
    split at hstep
    · next key epcs cancelled htask =>
      cases cancelled with
      | true =>
        cases hstep
        exact h.finish task _
      | false => cases h.idle _ _ htask
    · cases hstep
  | respond task response =>
    rw [Poller.step] at hstep
    split at hstep
    · next htask => cases h.idle _ _ htask
    · cases hstep
  | interrupt task exn =>
    rw [Poller.step] at hstep
    split at hstep
    · cases hstep
      exact h.finish task _
    · cases hstep
  | subscription call =>
    obtain ⟨_,_,rfl⟩ := Option.map_eq_some_iff.mp hstep
    exact ⟨h.stopped,h.states,h.idle,h.fired,h.requested,h.changes⟩
  | change key node =>
    obtain ⟨_,_,rfl⟩ := Option.map_eq_some_iff.mp hstep
    exact ⟨h.stopped,h.states,h.idle,h.fired,h.requested,h.changes⟩
  | register key classCode node =>
    cases hstep
    refine ⟨h.stopped,h.states,h.idle,h.fired,h.requested,?_⟩
    intro other available
    rw [List.count_append,h.changes]
    rfl

/-- After `stop` nothing is fired, requested or observed until the next `start`, in whichever order
the tasks of the cancelled cycles end. -/
theorem stop_quiet {tiers : PollerTiers} (h : Reachable Poller.step {tiers} s)
    (hrun : Reaches Poller.step (fun _ event => event ≠ .start) s.stop t) : s.Quiet t :=
  hrun.invariant (wired_of_reachable h).quiet_stop fun _ _ _ hquiet hguard hstep => hquiet.step hguard hstep

/-- The meter is stopped while its answer is awaited; the cycle then ends. -/
theorem stop_quiet_meter : ∃ s t : Poller String, s.isPolling "meter" = true ∧
    t.tasks.map CycleTask.live = [false] ∧ s.Quiet t := by
  have hrun : (exec step {tiers := ({} : PollerArguments).tiers} firstCycle).any (fun s => s.isPolling "meter" &&
      (exec step s.stop [.interrupt 0 .cancelledError]).any fun t =>
        t.tasks.map CycleTask.live == [false]) = true := by decide +kernel
  obtain ⟨s,hs,hcheck⟩ := (Option.any_eq_true _ _).mp hrun
  obtain ⟨hpolling,hcheck⟩ := Bool.and_eq_true_iff.mp hcheck
  obtain ⟨t,ht,hlive⟩ := (Option.any_eq_true _ _).mp hcheck
  have hlater : Reaches step (fun _ event => event ≠ .start) s.stop t :=
    reaches_of_exec (fun l hl _ => by cases List.mem_singleton.mp hl; exact nofun) ht
  exact ⟨s,t,hpolling,beq_iff_eq.mp hlive,stop_quiet (reachable_of_exec hs) hlater⟩

end Poller
end Pyhems.Poll

import Pyhems.Device.CrewRefinement
import Pyhems.Device.Registration

/-! `async_stop`: what it leaves of a manager when it returns, and from then on. -/
namespace Pyhems.Device
open Protocol Library Transition Pyhems.Runtime

/-- A live task that the manager created: a worker, a refresh task or the consumer. -/
def Routine.isOwn : Routine → Bool
  | .created _ => true
  | .jobs (some _) _ => true
  | .refresh _ _ _ => true
  | .consumer => true
  | _ => false

/-- A call from outside that has not returned: `set_properties`, or a direct `process_instance_list_event`. -/
def Routine.isCall : Routine → Bool
  | .jobs none _ => true
  | .setting _ _ _ => true
  | _ => false

/-- A new call from outside. -/
def ManagerEvent.isCall : ManagerEvent → Bool
  | .start => true
  | .processFrame _ _ => true
  | .processInstanceList _ _ => true
  | .setProperties _ _ _ => true
  | _ => false

def Manager.callInFlight (s : Manager) : Bool := s.tasks.any fun t => t.routine.isCall

/-- Nothing disturbs `async_stop`, and no call from outside is in flight while it runs. -/
def Manager.alone (config : Config) (s : Manager) (event : ManagerEvent) : Bool :=
  s.undisturbed config event &&
    match event with
    | .stop | .stopResumes => !s.callInFlight
    | _ => true

/-- The step is the one in which `async_stop` returns. -/
def Manager.StopReturns (config : Config) (s : Manager) (event : ManagerEvent) (t : Manager) : Prop :=
  (event = .stop ∨ event = .stopResumes) ∧ s.step config event = some t ∧ t.stopping = none

/-- No task of the manager is live. -/
structure Manager.Quiet (s : Manager) : Prop where
  idle : s.running = none
  ended : ∀ t ∈ s.tasks, t.routine.isOwn = false

/-- No task of the manager is live, and from then on, until `async_start` or another call from
outside, no request is issued and no data changes. A call that was made before goes on. -/
structure Manager.Stopped (config : Config) (s : Manager) : Prop where
  quiet : s.Quiet
  still : ∀ t, Reaches (Manager.step config) (fun _ event => event.isCall = false) s t →
    t.data = s.data ∧ t.requests = s.requests

variable {config : Config} {s t u : Manager} {task : Nat} {event : ManagerEvent}

/-! ### Nothing happens once all tasks have ended -/

/-- No task goes on, and the manager issues and changes nothing. -/
structure Still (s t : Manager) : Prop where
  idle : t.running = s.running
  routines : ∀ x ∈ t.tasks, ∃ y ∈ s.tasks, y.routine = x.routine
  data : t.data = s.data
  requests : t.requests = s.requests

theorem Still.refl : Still s s := ⟨rfl,fun x hx => ⟨x,hx,rfl⟩,rfl,rfl⟩

theorem Still.trans (h : Still s t) (h' : Still t u) : Still s u := by
  refine ⟨h'.idle.trans h.idle,fun x hx => ?_,h'.data.trans h.data,h'.requests.trans h.requests⟩
  obtain ⟨y,hy,hyx⟩ := h'.routines x hx
  obtain ⟨z,hz,hzy⟩ := h.routines y hy
  exact ⟨z,hz,hzy.trans hyx⟩

/-- All tasks have ended, those of calls from outside too. -/
structure Manager.Vacant (s : Manager) : Prop where
  idle : s.running = none
  ended : ∀ t ∈ s.tasks, t.routine = .ended

theorem Still.vacant (h : Still s t) (hs : s.Vacant) : t.Vacant := by
  refine ⟨h.idle.trans hs.idle,fun x hx => ?_⟩
  obtain ⟨y,hy,hyx⟩ := h.routines x hx
  exact hyx.symm.trans (hs.ended y hy)

/-- Only what the tasks do not see changes. -/
theorem still_of_same (hrunning : t.running = s.running) (htasks : t.tasks = s.tasks)
    (hdata : t.data = s.data) (hrequests : t.requests = s.requests) : Still s t := by
  refine ⟨hrunning,fun x hx => ?_,hdata,hrequests⟩
  rw [htasks] at hx
  exact ⟨x,hx,rfl⟩

theorem still_cancelTasks (s : Manager) (cancelled : List Nat) : Still s (s.cancelTasks cancelled) := by
  refine ⟨rfl,fun t ht => ?_,rfl,rfl⟩
  obtain ⟨task,hlt,rfl⟩ := List.mem_mapIdx.mp ht
  exact ⟨s.tasks[task],List.getElem_mem hlt,rfl⟩

theorem still_stopConsumer (s : Manager) : Still s s.stopConsumer := by
  unfold Manager.stopConsumer
  simp only
  split
  · exact still_of_same rfl rfl rfl rfl
  · next consumer _ =>
    let u : Manager := {s with refreshTasks := []}
    have hu : Still s (u.cancelTasks [consumer]) :=
      (still_of_same (s := s) (t := u) rfl rfl rfl rfl).trans (still_cancelTasks u [consumer])
    exact hu.trans (still_of_same rfl rfl rfl rfl)

theorem still_stopRefreshes (s : Manager) : Still s s.stopRefreshes := by
  let u : Manager := {s with nodeWorkers := ∅, nodeJobs := ∅, deferredFrames := fun _ => []}
  have hu : Still s (u.cancelTasks s.refreshTasks) :=
    (still_of_same (s := s) (t := u) rfl rfl rfl rfl).trans (still_cancelTasks u s.refreshTasks)
  unfold Manager.stopRefreshes
  simp only
  split
  · exact hu.trans (still_stopConsumer (u.cancelTasks s.refreshTasks))
  · exact hu.trans (still_of_same rfl rfl rfl rfl)

theorem still_stop (s : Manager) : Still s s.stop := by
  let u : Manager := {s with subscribed := false}
  let workers := s.nodeWorkers.entries.map Sigma.snd
  have hu : Still s (u.cancelTasks workers) :=
    (still_of_same (s := s) (t := u) rfl rfl rfl rfl).trans (still_cancelTasks u workers)
  unfold Manager.stop
  simp only
  split
  · exact hu.trans (still_stopRefreshes (u.cancelTasks workers))
  · exact hu.trans (still_of_same rfl rfl rfl rfl)

theorem still_stopResumes (h : s.stopResumes = some t) : Still s t := by
  unfold Manager.stopResumes at h
  split at h
  · obtain ⟨_,he⟩ := Option.ite_none_right_eq_some.mp h
    cases he
    exact still_stopRefreshes s
  · obtain ⟨_,he⟩ := Option.ite_none_right_eq_some.mp h
    cases he
    exact still_stopConsumer s
  · obtain ⟨_,he⟩ := Option.ite_none_right_eq_some.mp h
    cases he
    exact still_of_same rfl rfl rfl rfl
  · cases h

theorem Manager.Vacant.routine (hs : s.Vacant) {t : Task} (htask : s.tasks[task]? = some t) :
    t.routine = .ended := hs.ended t (List.mem_of_getElem? htask)

theorem still_perform (hs : s.Vacant) (hcall : event.isCall = false)
    (h : s.perform config event = some t) : Still s t := by
  cases event with
  | start => cases hcall
  | stop =>
    obtain ⟨_,he⟩ := Option.ite_none_right_eq_some.mp h
    cases he
    exact still_stop s
  | stopResumes => exact still_stopResumes h
  | received event =>
    cases h
    split
    · exact still_of_same rfl rfl rfl rfl
    · exact .refl
  | consume =>
    have h : s.consume config = some t := h
    unfold Manager.consume at h
    split at h
    · split at h
      · next hconsumer => cases hs.routine hconsumer
      · cases h
    · cases h
  | advance => cases h
  | resume task outcome =>
    obtain ⟨⟨r,c⟩,htask,h⟩ := Option.bind_eq_some_iff.mp h
    have hended : r = .ended := hs.routine htask
    subst hended
    cases h
  | cancel task =>
    obtain ⟨_,he⟩ := Option.ite_none_right_eq_some.mp h
    cases he
    exact still_cancelTasks s [task]
  | processFrame key frame => cases hcall
  | processInstanceList nodeId instances => cases hcall
  | setProperties key properties refresh => cases hcall
  | discardRefresh task =>
    obtain ⟨_,he⟩ := Option.ite_none_right_eq_some.mp h
    cases he
    exact still_of_same rfl rfl rfl rfl
  | identify key attempt =>
    cases h
    rcases readManufacturerCode_cases s key attempt with ⟨exn,hread⟩ | ⟨edt,_,hread⟩
    · rw [hread]
      exact .refl
    · rw [hread]
      exact still_of_same rfl rfl rfl rfl
  | forget key =>
    cases h
    exact still_of_same rfl rfl rfl rfl

theorem still_step (hs : s.Vacant) (hcall : event.isCall = false)
    (h : s.step config event = some t) : Still s t := by
  unfold Manager.step at h
  rw [hs.idle] at h
  exact still_perform hs hcall h

theorem stopped_of_vacant (hs : s.Vacant) : s.Stopped config := by
  have hquiet : s.Quiet := ⟨hs.idle,fun t ht => by rw [hs.ended t ht]; rfl⟩
  refine ⟨hquiet,fun t h => ?_⟩
  have hstill : Still s t := by
    induction h with
    | refl => exact .refl
    | tail _ hcall hstep ih => exact ih.trans (still_step (ih.vacant hs) hcall hstep)
  exact ⟨hstill.data,hstill.requests⟩

/-! ### The return of `async_stop` -/

theorem isOwn_of_post {r : Routine} (hown : r.isOwn = true) : ∃ post, r.post = some post ∧ post ≠ .outside := by
  cases r with
  | created => exact ⟨_,rfl,nofun⟩
  | jobs worker activity =>
    cases worker with
    | none => cases hown
    | some owner => exact ⟨_,rfl,nofun⟩
  | consumer => exact ⟨_,rfl,nofun⟩
  | refresh => exact ⟨_,rfl,nofun⟩
  | setting => cases hown
  | ended => cases hown

theorem quiet_of_crew (hrunning : s.running = none) (hcrew : s.crew.Quiet) : s.Quiet := by
  refine ⟨hrunning,fun t ht => ?_⟩
  by_contra hown
  obtain ⟨post,hpost,hother⟩ := isOwn_of_post (Bool.not_eq_false _ ▸ hown)
  obtain ⟨task,htask⟩ := List.getElem?_of_mem ht
  exact hother (hcrew task post t.cancelRequested ((crew_posts htask).trans (congrArg (Option.map _) hpost)))

/-- No tables, no tasks. -/
theorem quiet_of_tables {d : Crew} (hd : d.Staffed) (hworkers : ∀ nodeId, d.nodeWorkers nodeId = none)
    (hrefresh : ∀ task c, d.posts task ≠ some (.refresh,c)) (hconsumer : ∀ task c, d.posts task ≠ some (.consumer,c)) :
    d.Quiet := by
  intro task post c hpost
  have hfits := hd.fits task post c hpost
  cases post with
  | created nodeId => cases (hfits.listed nodeId rfl).symm.trans (hworkers nodeId)
  | worker nodeId deque busy => cases (hfits.listed nodeId rfl).symm.trans (hworkers nodeId)
  | outside => rfl
  | refresh => exact absurd hpost (hrefresh task c)
  | consumer => exact absurd hpost (hconsumer task c)

/-- The tables of the manager's own tasks are empty. -/
structure Manager.Bare (s : Manager) : Prop where
  workers : s.nodeWorkers = ∅
  refreshes : s.refreshTasks = []
  consumer : s.eventConsumerTask = none

theorem Manager.Bare.quiet (hs : s.crew.Staffed) (h : s.Bare) : s.crew.Quiet := by
  refine quiet_of_tables hs (fun nodeId => ?_) (fun task c hpost => ?_) fun task c hpost => ?_
  · simp only [Manager.crew,h.workers,AList.lookup_empty]
  · have hmem : task ∈ s.refreshTasks := (hs.fits task _ c hpost).refreshing rfl
    rw [h.refreshes] at hmem
    cases hmem
  · cases ((hs.fits task _ c hpost).consumer rfl).symm.trans h.consumer

theorem stopConsumer_returns (h : s.stopConsumer.stopping = none) :
    s.eventConsumerTask = none ∧ s.stopConsumer = {s with refreshTasks := [], stopping := none} := by
  unfold Manager.stopConsumer at h ⊢
  simp only at h ⊢
  split at h
  · next hconsumer => exact ⟨hconsumer,by simp only [hconsumer]⟩
  · cases h

theorem stopRefreshes_returns (h : s.stopRefreshes.stopping = none) : s.stopRefreshes.Bare := by
  unfold Manager.stopRefreshes at h ⊢
  simp only at h ⊢
  split at h
  · next hrefreshes =>
    obtain ⟨hconsumer,he⟩ := stopConsumer_returns h
    rw [if_pos hrefreshes,he]
    exact ⟨rfl,rfl,hconsumer⟩
  · cases h

theorem stop_returns (h : s.stop.stopping = none) : s.stop.Bare := by
  unfold Manager.stop at h ⊢
  simp only at h ⊢
  split at h
  · next hworkers =>
    rw [if_pos hworkers]
    exact stopRefreshes_returns h
  · cases h

/-- `async_stop` returns with no task of the manager live. -/
theorem quiet_stopResumes (hs : s.crew.Staffed) (ht : t.crew.Staffed) (h : s.stopResumes = some t)
    (hreturn : t.stopping = none) : t.crew.Quiet := by
  unfold Manager.stopResumes at h
  split at h
  · obtain ⟨_,he⟩ := Option.ite_none_right_eq_some.mp h
    cases he
    exact (stopRefreshes_returns hreturn).quiet ht
  · next awaited hphase =>
    obtain ⟨_,he⟩ := Option.ite_none_right_eq_some.mp h
    cases he
    obtain ⟨hconsumer,he⟩ := stopConsumer_returns hreturn
    have hunmanned := hs.unmanned hphase nofun
    rw [he] at ht ⊢
    refine quiet_of_tables ht hunmanned (fun task c hpost => ?_) fun task c hpost => ?_
    · cases (ht.fits task _ c hpost).refreshing rfl
    · cases ((ht.fits task _ c hpost).consumer rfl).symm.trans hconsumer
  · next consumer hphase =>
    obtain ⟨_,he⟩ := Option.ite_none_right_eq_some.mp h
    cases he
    have hunmanned := hs.unmanned hphase nofun
    refine quiet_of_tables ht hunmanned (fun task c hpost => ?_) fun task c hpost => ?_
    · exact (hs.fits task _ c hpost).settled consumer hphase rfl
    · cases (ht.fits task _ c hpost).consumer rfl
  · cases h

theorem quiet_returns (hs : s.crew.Staffed) (ht : t.crew.Staffed) (h : s.StopReturns config event t) :
    t.Quiet := by
  obtain ⟨hevent,hstep,hreturn⟩ := h
  unfold Manager.step at hstep
  split at hstep
  · rcases hevent with he | he <;> cases he
  · cases hstep
  · next hrunning =>
    rcases hevent with rfl | rfl
    · obtain ⟨_,he⟩ := Option.ite_none_right_eq_some.mp hstep
      cases he
      exact quiet_of_crew ((still_stop s).idle.trans hrunning) ((stop_returns hreturn).quiet ht)
    · exact quiet_of_crew ((still_stopResumes hstep).idle.trans hrunning)
        (quiet_stopResumes hs ht hstep hreturn)

theorem still_returns (h : s.StopReturns config event t) : Still s t := by
  obtain ⟨hevent,hstep,_⟩ := h
  unfold Manager.step at hstep
  split at hstep
  · rcases hevent with he | he <;> cases he
  · cases hstep
  · rcases hevent with rfl | rfl
    · obtain ⟨_,he⟩ := Option.ite_none_right_eq_some.mp hstep
      cases he
      exact still_stop s
    · exact still_stopResumes hstep

theorem ended_of_idle {r : Routine} (hown : r.isOwn = false) (hcall : r.isCall = false) : r = .ended := by
  cases r with
  | jobs worker activity =>
    cases worker with
    | none => cases hcall
    | some owner => cases hown
  | setting => cases hcall
  | created | consumer | refresh => cases hown
  | ended => rfl

theorem vacant_returns (hquiet : t.Quiet) (hguard : s.alone config event = true) (h : s.StopReturns config event t) :
    t.Vacant := by
  have hcalls : s.callInFlight = false := by
    obtain ⟨_,hguard⟩ := (Bool.and_eq_true _ _).mp hguard
    rcases h.1 with rfl | rfl <;> exact (Bool.not_eq_true' _).mp hguard
  refine ⟨hquiet.idle,fun x hx => ended_of_idle (hquiet.ended x hx) ?_⟩
  obtain ⟨y,hy,hyx⟩ := (still_returns h).routines x hx
  rw [← hyx,← Bool.not_eq_true]
  exact List.any_eq_false.mp hcalls y hy

/-- In every run in which nothing enqueues a job for a node without a worker while `async_stop` is
suspended, and no call from outside is in flight while it runs, the manager is stopped when it returns. -/
theorem stop_stops (h : Reaches (Manager.step config) (fun s event => s.alone config event = true) {} s)
    (hguard : s.alone config event = true) (hreturns : s.StopReturns config event t) :
    t.Stopped config := by
  have hundisturbed : ∀ s event, Manager.alone config s event = true → s.undisturbed config event = true :=
    fun _ _ hguard => ((Bool.and_eq_true _ _).mp hguard).1
  have hreach := h.mono hundisturbed
  have hquiet := quiet_returns (staffed_reaches hreach)
    (staffed_reaches (hreach.tail (hundisturbed s event hguard) hreturns.2.1)) hreturns
  exact stopped_of_vacant (vacant_returns hquiet hguard hreturns)

/-- The sensor awaits its setup read when `async_stop` is called, and then nothing else comes. -/
theorem stop_stops_sensor : ∃ s t : Manager, s.StopReturns sensorConfig .stopResumes t ∧
    t.Stopped sensorConfig := by
  have hrun : ((exec (fun s event => if s.alone sensorConfig event then Manager.step sensorConfig s event
      else none) {} (sensorListed ++ [.stop,.resume 1 .woken,.stopResumes,.resume 0 .woken])).any fun s =>
      s.alone sensorConfig .stopResumes &&
        (s.step sensorConfig .stopResumes).any fun t => decide (t.stopping = none)) = true := by
    decide +kernel
  obtain ⟨s,hs,hcheck⟩ := (Option.any_eq_true _ _).mp hrun
  obtain ⟨hguard,hreturn⟩ := (Bool.and_eq_true _ _).mp hcheck
  obtain ⟨t,ht,hreturn⟩ := (Option.any_eq_true _ _).mp hreturn
  have hreach := reaches_of_checked (fun s event => Manager.alone sensorConfig s event = true)
    (fun _ _ hcheck => hcheck) hs
  have hreturns : s.StopReturns sensorConfig .stopResumes t := ⟨Or.inr rfl,ht,of_decide_eq_true hreturn⟩
  exact ⟨s,t,hreturns,stop_stops hreach hguard hreturns⟩

/-! ### What `async_stop` leaves behind -/

/-- `async_stop` awaits the worker of one node while the consumer takes the instance list of another
one: the worker created then is alive when `async_stop` returns, and awaits a manufacturer code. -/
theorem worker_left : ∃ s t, Reachable (Manager.step sensorConfig) {} s ∧
    s.StopReturns sensorConfig .stopResumes t ∧ ¬ t.Quiet := by
  have hrun : ((exec (Manager.step sensorConfig) {} (sensorListed ++
      [.received (.instanceList 0 [humiditySensor] "fe02"),.stop,.consume,.resume 2 .woken,.advance,.advance,
        .resume 1 .woken,.stopResumes,.resume 0 .woken])).any fun s =>
      (s.step sensorConfig .stopResumes).any fun t => decide (t.stopping = none) &&
        t.tasks.any fun task => task.routine.isOwn) = true := by decide +kernel
  obtain ⟨s,hs,hreturn⟩ := (Option.any_eq_true _ _).mp hrun
  obtain ⟨t,ht,hcheck⟩ := (Option.any_eq_true _ _).mp hreturn
  obtain ⟨hreturn,hlive⟩ := (Bool.and_eq_true _ _).mp hcheck
  obtain ⟨task,hmem,hown⟩ := List.any_eq_true.mp hlive
  refine ⟨s,t,reachable_of_exec hs,⟨Or.inr rfl,ht,of_decide_eq_true hreturn⟩,fun hquiet => ?_⟩
  cases hown.symm.trans (hquiet.ended task hmem)

/-- The sensor is announced, and a `set_properties` of it awaits its answer while `async_stop` runs. -/
def sensorCalled : List ManagerEvent :=
  sensorListed ++ sensorRegistered 0x30 ++
    [.resume 1 (.reply (some (.ok (true,some (statusNotification 0x30))))),.advance,.advance,
      .setProperties sensor [⟨0x80,[0x31]⟩] true,.stop,.resume 0 .woken]

/-- The answer to it, and the first step of the refresh task. -/
def sensorAnswered : List ManagerEvent :=
  [.resume 2 (.reply (some (.ok (true,some ⟨humiditySensor,controllerInstance,.setRes,0,[⟨0x80,[]⟩]⟩)))),
    .resume 3 .woken]

/-- The call goes on after the return: it changes the data, and the refresh task that it creates sends a request. -/
theorem call_left : ∃ s t u, Reaches (Manager.step sensorConfig)
      (fun s event => s.undisturbed sensorConfig event = true) {} s ∧
    s.StopReturns sensorConfig .stopResumes t ∧
    Reaches (Manager.step sensorConfig) (fun _ event => event.isCall = false) t u ∧
      u.data ≠ t.data ∧ u.requests ≠ t.requests := by
  have hrun : (exec (fun s event => if s.undisturbed sensorConfig event then Manager.step sensorConfig s event
      else none) {} sensorCalled).any (fun s => (s.step sensorConfig .stopResumes).any fun t =>
        decide (t.stopping = none) && (exec (fun s event => if !event.isCall then Manager.step sensorConfig s event
          else none) t sensorAnswered).any fun u =>
            decide (t.cached sensor 0x80 = some [0x30] ∧ u.cached sensor 0x80 = some [0x31] ∧
              t.requests.length < u.requests.length)) = true := by decide +kernel
  obtain ⟨s,hs,hreturn⟩ := (Option.any_eq_true _ _).mp hrun
  obtain ⟨t,ht,hcheck⟩ := (Option.any_eq_true _ _).mp hreturn
  obtain ⟨hreturn,hcheck⟩ := (Bool.and_eq_true _ _).mp hcheck
  obtain ⟨u,hu,hcheck⟩ := (Option.any_eq_true _ _).mp hcheck
  obtain ⟨hold,hnew,hlength⟩ := of_decide_eq_true hcheck
  have hreach := reaches_of_checked (fun s event => Manager.undisturbed sensorConfig s event = true)
    (fun _ _ hcheck => hcheck) hs
  have hlater := reaches_of_checked (fun _ event => ManagerEvent.isCall event = false)
    (fun _ _ hcheck => (Bool.not_eq_true' _).mp hcheck) hu
  refine ⟨s,t,u,hreach,⟨Or.inr rfl,ht,of_decide_eq_true hreturn⟩,hlater,fun hdata => ?_,fun hrequests => ?_⟩
  · rw [Manager.cached,hdata] at hnew
    cases hold.symm.trans hnew
  · rw [hrequests] at hlength
    exact absurd hlength (Nat.lt_irrefl _)

/-- Neither do its own tasks always end, nor does it always stay as it is from then on, even if nothing disturbs
`async_stop`. -/
theorem not_always_stopped :
    (¬ ∀ s, Reachable (Manager.step sensorConfig) {} s → ∀ event t,
      s.StopReturns sensorConfig event t → t.Quiet) ∧
    ¬ ∀ s, Reaches (Manager.step sensorConfig) (fun s event => s.undisturbed sensorConfig event = true) {} s →
      ∀ event t, s.StopReturns sensorConfig event t → t.Stopped sensorConfig := by
  constructor
  · intro h
    obtain ⟨s,t,hs,hreturns,hlive⟩ := worker_left
    exact hlive (h s hs _ t hreturns)
  · intro h
    obtain ⟨s,t,u,hs,hreturns,hu,hdata,_⟩ := call_left
    exact hdata ((h s hs _ t hreturns).still u hu).1

end Pyhems.Device

import Pyhems.Runtime.Discovery
import Pyhems.Runtime.TidOwnership

/-! `HemsClient.stop` with its two awaits, and what goes on meanwhile: the socket stays open, so
frames are still received. What they leave behind is cleared, unless they start a discovery. -/
namespace Pyhems.Runtime
open Protocol Library Transition

/-- The task of `_discovery_loop`. It ends only when it is cancelled. -/
inductive LoopPhase where
  | running
  | cancelled
  | ended
  deriving DecidableEq, Repr

/-- Where `stop` stands: it is not running, awaits the discoveries that it cancelled, or awaits
the recurring one. -/
inductive StopPhase where
  | idle
  | gathering (tasks : List Nat)
  | joining
  deriving DecidableEq, Repr

/-- `getCapabilities` are the keys of `_get_capabilities`. -/
structure HemsClient where
  client : Client := {}
  discovery : Discovery := {}
  getCapabilities : List (NodeId × EOJ) := []
  discoveryTask : Option LoopPhase := none
  stopPhase : StopPhase := .idle

/-- `probed` tells whether the initial probe was sent; if it was not, `start` goes on with
`stop`. A `capability` is the `setdefault` of a call, and a `request` any event of requests. -/
inductive HemsEvent where
  | start (probed : Bool)
  | stop
  | stopResumes
  | receive (frame : Frame) (address : Address)
  | starts (task : Nat)
  | ends (task : Nat)
  | done (task : Nat)
  | loopEnds
  | capability (nodeId : NodeId) (deoj : EOJ)
  | request (event : ClientEvent)

namespace HemsClient

/-- `start`, once the socket is open. -/
def start (s : HemsClient) (probed : Bool) : HemsClient :=
  if s.client.started then s
  else
    let tidCounter := (nextTransactionId s.client.pending 0xFFFF s.client.tidCounter).2
    let s := {s with client := {s.client with started := true, tidCounter}}
    if probed && s.discoveryTask.isNone then {s with discoveryTask := some .running} else s

/-- The rest of `stop`, after its last await. -/
def close (s : HemsClient) : HemsClient :=
  {s with discoveryTask := none, client := s.client.stop, stopPhase := .idle}

/-- `stop` between its two awaits. -/
def clear (s : HemsClient) : HemsClient :=
  let router := {s.discovery.router with discoveryTasks := ∅, pendingFrames := ∅}
  let s := {s with discovery := {s.discovery with router}, getCapabilities := []}
  if !s.client.started then {s with stopPhase := .idle}
  else
    match s.discoveryTask with
    | none | some .ended => s.close
    | some _ => {s with discoveryTask := some .cancelled, stopPhase := .joining}

/-- `stop` up to its first await. -/
def stop (s : HemsClient) : HemsClient :=
  let tasks := s.discovery.router.discoveryTasks.entries.map Sigma.snd
  if tasks = [] then s.clear else {s with stopPhase := .gathering tasks}

/-- The await of `stop` is over: every task that it waits for is done. -/
def stopResumes (s : HemsClient) : Option HemsClient :=
  match s.stopPhase with
  | .idle => none
  | .gathering tasks =>
    if tasks.all fun task => (s.discovery.tasks[task]?).any fun t => decide (t.phase = .done) then
      some s.clear
    else none
  | .joining => if s.discoveryTask = some .ended then some s.close else none

/-- `_clear_get_capabilities_for_node`, for the node that an address no longer belongs to. -/
def forget (s : HemsClient) (frame : Frame) (address : Address) : List (NodeId × EOJ) :=
  if Router.profiled frame then
    match (extractDiscoveryInfo frame).1,s.discovery.router.deviceAddresses.get address with
    | some nodeId,some previous =>
      if previous ≠ nodeId then s.getCapabilities.filter fun key => key.1 ≠ previous
      else s.getCapabilities
    | _,_ => s.getCapabilities
  else s.getCapabilities

/-- A datagram, which only an open socket delivers. -/
def receive (s : HemsClient) (frame : Frame) (address : Address) : Option HemsClient :=
  if s.client.started then
    some {s with client := s.client.receive frame address,
                 discovery := s.discovery.receive frame address,
                 getCapabilities := s.forget frame address}
  else none

/-- The first step of a discovery task. One that is cancelled before ends without its `finally`. -/
def starts (s : HemsClient) (task : Nat) : Option HemsClient :=
  let cancelled := match s.stopPhase with
    | .gathering tasks => tasks.contains task
    | _ => false
  match s.discovery.tasks[task]? with
  | some ⟨address,.created⟩ =>
    let phase := if cancelled then .ended else .running
    some {s with discovery := {s.discovery with tasks := s.discovery.tasks.set task ⟨address,phase⟩}}
  | _ => none

def setdefault (s : HemsClient) (key : NodeId × EOJ) : HemsClient :=
  if key ∈ s.getCapabilities then s else {s with getCapabilities := s.getCapabilities ++ [key]}

def step (s : HemsClient) : HemsEvent → Option HemsClient
  | .start probed => some (s.start probed)
  | .stop => if s.stopPhase = .idle then some s.stop else none
  | .stopResumes => s.stopResumes
  | .receive frame address => s.receive frame address
  | .starts task => s.starts task
  | .ends task => (s.discovery.ends task).map fun discovery => {s with discovery}
  | .done task => (s.discovery.done task).map fun discovery => {s with discovery}
  | .loopEnds =>
    if s.discoveryTask = some .cancelled then some {s with discoveryTask := some .ended} else none
  | .capability nodeId deoj => some (s.setdefault (nodeId,deoj))
  | .request event =>
    match event with
    | .start | .stop | .receive _ _ => none
    | event => (s.client.step event).map fun client => {s with client}

end HemsClient

/-- The frame makes the client discover its address. -/
def Router.schedules (s : Router) (frame : Frame) (address : Address) : Bool :=
  decide (address ∉ s.discoveryTasks) &&
    (s.accepts frame address || Router.profiled frame && (extractDiscoveryInfo frame).1.isNone &&
      decide (s.deviceAddresses.get address = none))

/-- A discovery is scheduled while `stop` awaits the end of tasks, or a call comes to its
capability while `stop` awaits the recurring discovery. -/
def HemsClient.leaks (s : HemsClient) : HemsEvent → Bool
  | .receive frame address =>
    decide (s.stopPhase ≠ .idle) && s.discovery.router.schedules frame address
  | .capability _ _ => decide (s.stopPhase = .joining)
  | _ => false

/-- The task is one of `_discover_address` and has not ended. -/
def Discovery.Unfinished (d : Discovery) (task : Nat) : Prop :=
  ∃ address phase, d.tasks[task]? = some ⟨address,phase⟩ ∧ phase.unfinished = true

/-- Nothing of the time before the stop is left. -/
structure HemsClient.Clean (s : HemsClient) : Prop where
  tasks : ∀ task, ¬ s.discovery.Unfinished task
  pendingFrames : s.discovery.router.pendingFrames = ∅
  discoveryTasks : s.discovery.router.discoveryTasks = ∅
  getCapabilities : s.getCapabilities = []
  pending : s.client.pending = ∅
  nodeQueues : s.client.nodeQueues = ∅

/-! ### The table of discoveries -/

/-- Tasks are numbered as they are created, and the unfinished ones are in the table. -/
structure Tabled (d : Discovery) : Prop where
  count : d.tasks.length = d.router.taskCount
  unfinished : ∀ task address phase, d.tasks[task]? = some ⟨address,phase⟩ → phase.unfinished = true →
    d.router.discoveryTasks.lookup address = some task

variable {r : Router} {d e : Discovery} {s t : HemsClient} {frame : Frame} {address : Address}
  {event : HemsEvent} {task : Nat} {phase phase' : DiscoveryPhase}

theorem Tabled.listed (hd : Tabled d) (h : d.Unfinished task) :
    task ∈ d.router.discoveryTasks.entries.map Sigma.snd := by
  obtain ⟨address,phase,htask,hphase⟩ := h
  have hlookup := hd.unfinished task address phase htask hphase
  exact List.mem_map.mpr ⟨⟨address,task⟩,AList.mem_lookup_iff.mp hlookup,rfl⟩

/-- A frame leaves the table alone, or schedules one discovery. -/
theorem processFrame_tasks (s : Router) (frame : Frame) (address : Address) :
    ((s.processFrame frame address).discoveryTasks = s.discoveryTasks ∧
      (s.processFrame frame address).taskCount = s.taskCount) ∨
    s.schedules frame address = true ∧ address ∉ s.discoveryTasks ∧
      (s.processFrame frame address).discoveryTasks = s.discoveryTasks.insert address s.taskCount ∧
      (s.processFrame frame address).taskCount = s.taskCount+1 := by
  cases processFrame_received s frame address with
  | ignored haccepts h => exact Or.inl ⟨h.discoveryTasks,h.taskCount⟩
  | queued haccepts h =>
    have hkeep : (s.keep address (s.joined frame address)).discoveryTasks =
        (s.scheduleAddressDiscovery address).discoveryTasks := by
      unfold Router.keep Router.scheduleAddressDiscovery
      split <;> rfl
    have htasks := h.discoveryTasks.trans hkeep
    have hcount := h.taskCount.trans (keep_taskCount s address _)
    rcases schedule_cases s address with ⟨_,he⟩ | ⟨hnew,he⟩ <;> rw [he] at htasks hcount
    · exact Or.inl ⟨htasks,hcount⟩
    · exact Or.inr ⟨by simp [Router.schedules,hnew,haccepts],hnew,htasks,hcount⟩
  | unidentified hprofiled hid hunknown h =>
    have htasks := h.discoveryTasks
    have hcount := h.taskCount
    rcases schedule_cases s address with ⟨_,he⟩ | ⟨hnew,he⟩ <;> rw [he] at htasks hcount
    · exact Or.inl ⟨htasks,hcount⟩
    · exact Or.inr ⟨by simp [Router.schedules,hnew,hprofiled,hid,hunknown],hnew,htasks,hcount⟩
  | identified hprofiled h =>
    obtain ⟨_,htasks,hcount⟩ := learn_frame s address (extractDiscoveryInfo frame).1
    exact Or.inl ⟨h.discoveryTasks.trans htasks,h.taskCount.trans hcount⟩
  | announced hprofiled h =>
    obtain ⟨_,htasks,hcount⟩ := learn_frame s address (extractDiscoveryInfo frame).1
    exact Or.inl ⟨h.discoveryTasks.trans htasks,h.taskCount.trans hcount⟩

/-- A task that moves on becomes no unfinished one. -/
theorem unfinished_set {source : Address} {n : Nat} {p : DiscoveryPhase}
    (htask : d.tasks[task]? = some ⟨address,phase⟩) (hset : e.tasks = d.tasks.set task ⟨address,phase'⟩)
    (hphase : phase'.unfinished = true → phase.unfinished = true) (hn : e.tasks[n]? = some ⟨source,p⟩)
    (hp : p.unfinished = true) : ∃ p', d.tasks[n]? = some ⟨source,p'⟩ ∧ p'.unfinished = true := by
  rw [hset] at hn
  by_cases he : n = task
  · subst he
    rw [List.getElem?_set_self (List.getElem?_eq_some_iff.mp htask).1] at hn
    cases hn
    exact ⟨phase,htask,hphase hp⟩
  · rw [List.getElem?_set_ne (Ne.symm he)] at hn
    exact ⟨p,hn,hp⟩

theorem Tabled.move (hd : Tabled d) (htask : d.tasks[task]? = some ⟨address,phase⟩)
    (hset : e.tasks = d.tasks.set task ⟨address,phase'⟩)
    (hphase : phase'.unfinished = true → phase.unfinished = true)
    (hcount : e.router.taskCount = d.router.taskCount)
    (hlookup : ∀ source n, d.Unfinished n → d.router.discoveryTasks.lookup source = some n →
      e.router.discoveryTasks.lookup source = some n) :
    Tabled e ∧ ∀ n, e.Unfinished n → d.Unfinished n := by
  refine ⟨⟨?_,fun n source p hn hp => ?_⟩,?_⟩
  · rw [hset,hcount,List.length_set]
    exact hd.count
  · obtain ⟨p',hn',hp'⟩ := unfinished_set htask hset hphase hn hp
    exact hlookup source n ⟨source,p',hn',hp'⟩ (hd.unfinished n source p' hn' hp')
  · rintro n ⟨source,p,hn,hp⟩
    obtain ⟨p',hn',hp'⟩ := unfinished_set htask hset hphase hn hp
    exact ⟨source,p',hn',hp'⟩

theorem discoveryEnds_tasks (r : Router) (address : Address) :
    (r.discoveryEnds address).discoveryTasks = r.discoveryTasks ∧
      (r.discoveryEnds address).taskCount = r.taskCount := by
  unfold Router.discoveryEnds
  split <;> exact ⟨rfl,rfl⟩

theorem Tabled.advance {step : DiscoveryEvent} (hd : Tabled d) (h : Advanced d step e) :
    Tabled e ∧ ∀ n, e.Unfinished n → d.Unfinished n := by
  cases h with
  | started task address htask => exact hd.move htask rfl (fun _ => rfl) rfl fun _ _ _ => id
  | ended task address htask =>
    obtain ⟨htasks,hcount⟩ := discoveryEnds_tasks d.router address
    refine hd.move htask rfl (fun _ => rfl) hcount fun source n _ hlookup => ?_
    simpa only [htasks] using hlookup
  | done task address htask =>
    have hcount : (d.router.discoveryDone address task).taskCount = d.router.taskCount := by
      unfold Router.discoveryDone
      split <;> rfl
    refine hd.move htask rfl (fun h => by cases h) hcount fun source n hn hlookup => ?_
    simp only [Router.discoveryDone]
    split
    · next hlisted =>
      -- The entry that goes is the one of this task, which has ended.
      have hne : source ≠ address := by
        intro he
        rw [he,hlisted] at hlookup
        cases hlookup
        obtain ⟨_,p,hp,hunfinished⟩ := hn
        cases htask.symm.trans hp
        cases hunfinished
      exact (AList.lookup_erase_ne hne).trans hlookup
    · exact hlookup

theorem Tabled.receive (hd : Tabled d) (frame : Frame) (address : Address) :
    Tabled (d.receive frame address) ∧ (d.router.schedules frame address = false →
      (d.receive frame address).tasks = d.tasks ∧
        (d.receive frame address).router.discoveryTasks = d.router.discoveryTasks) := by
  have hrouter : (d.receive frame address).router = d.router.processFrame frame address := rfl
  rcases processFrame_tasks d.router frame address with ⟨hsame,hcount⟩ | ⟨hschedules,hnew,hinsert,hcount⟩
  · have htasks : (d.receive frame address).tasks = d.tasks := if_neg (by omega)
    refine ⟨⟨?_,?_⟩,fun _ => ⟨htasks,hsame⟩⟩
    · rw [htasks,hrouter,hcount]
      exact hd.count
    · rw [htasks,hrouter,hsame]
      exact hd.unfinished
  · have htasks : (d.receive frame address).tasks = d.tasks ++ [⟨address,.created⟩] := if_pos (by omega)
    refine ⟨⟨?_,fun n source p hn hp => ?_⟩,fun hnot => absurd hschedules (by simp [hnot])⟩
    · rw [htasks,hrouter,hcount,List.length_append,hd.count]
      rfl
    · rw [htasks] at hn
      rw [hrouter,hinsert]
      rcases Nat.lt_or_ge n d.tasks.length with hlt | hge
      · rw [List.getElem?_append_left hlt] at hn
        have hlookup := hd.unfinished n source p hn hp
        have hne : source ≠ address := by
          intro he
          rw [he,AList.lookup_eq_none.mpr hnew] at hlookup
          cases hlookup
        rw [AList.lookup_insert_ne hne,hlookup]
      · rw [List.getElem?_append_right hge,List.getElem?_singleton] at hn
        split at hn
        · next hzero =>
          cases hn
          have hlast : n = d.router.taskCount := by
            have hcount := hd.count
            omega
          rw [AList.lookup_insert,hlast]
        · cases hn

/-! ### The stop -/

/-- The discoveries are tabled. While `stop` awaits the cancelled ones there are no others, and
while it awaits the recurring one nothing is left of what it cleared. -/
structure Orderly (s : HemsClient) : Prop where
  tabled : Tabled s.discovery
  gathering : ∀ tasks, s.stopPhase = .gathering tasks → ∀ task, s.discovery.Unfinished task → task ∈ tasks
  joining : s.stopPhase = .joining → s.client.started = true ∧
    s.discovery.router.pendingFrames = ∅ ∧ s.discovery.router.discoveryTasks = ∅ ∧ s.getCapabilities = []

theorem Tabled.none_unfinished (hd : Tabled d) (h : d.router.discoveryTasks = ∅) (task : Nat) :
    ¬ d.Unfinished task := by
  intro htask
  have hlisted := hd.listed htask
  rw [h] at hlisted
  cases hlisted

theorem close_clean (hstarted : s.client.started = true) (htasks : ∀ task, ¬ s.discovery.Unfinished task)
    (hframes : s.discovery.router.pendingFrames = ∅) (htable : s.discovery.router.discoveryTasks = ∅)
    (hcapabilities : s.getCapabilities = []) : s.close.Clean := by
  have hclient : s.client.stop.pending = ∅ ∧ s.client.stop.nodeQueues = ∅ := by
    simp [Client.stop,hstarted]
  exact ⟨htasks,hframes,htable,hcapabilities,hclient.1,hclient.2⟩

theorem clear_cases (s : HemsClient) :
    let router := {s.discovery.router with discoveryTasks := ∅, pendingFrames := ∅}
    let u : HemsClient := {s with discovery := {s.discovery with router}, getCapabilities := []}
    s.client.started = false ∧ s.clear = {u with stopPhase := .idle} ∨
      s.client.started = true ∧ (s.clear = u.close ∨
        s.clear = {u with discoveryTask := some .cancelled, stopPhase := .joining}) := by
  unfold HemsClient.clear
  cases hstarted : s.client.started with
  | false => exact Or.inl ⟨rfl,by simp [hstarted]⟩
  | true =>
    refine Or.inr ⟨rfl,?_⟩
    simp only [hstarted,Bool.not_true,Bool.false_eq_true,if_false]
    split
    · exact Or.inl rfl
    · exact Or.inl rfl
    · exact Or.inr rfl

/-- With the discoveries gone, `stop` clears their tables, and closes the client unless it has
another task to wait for. -/
theorem Orderly.clear (hs : Orderly s) (hnone : ∀ task, ¬ s.discovery.Unfinished task) :
    Orderly s.clear ∧ (s.client.started = true → s.clear.stopPhase = .idle → s.clear.Clean) := by
  have htabled : ∀ u : Discovery, u.tasks = s.discovery.tasks →
      u.router.taskCount = s.discovery.router.taskCount → Tabled u := by
    intro u htasks hcount
    refine ⟨by rw [htasks,hcount]; exact hs.tabled.count,fun n source p hn hp => ?_⟩
    exact absurd ⟨source,p,htasks ▸ hn,hp⟩ (hnone n)
  rcases clear_cases s with ⟨hclosed,h⟩ | ⟨hstarted,h | h⟩ <;> rw [h]
  · refine ⟨⟨htabled _ rfl rfl,nofun,nofun⟩,fun hstarted => ?_⟩
    rw [hclosed] at hstarted
    cases hstarted
  · refine ⟨⟨htabled _ rfl rfl,nofun,nofun⟩,fun _ _ => ?_⟩
    exact close_clean hstarted hnone rfl rfl rfl
  · exact ⟨⟨htabled _ rfl rfl,nofun,fun _ => ⟨hstarted,rfl,rfl,rfl⟩⟩,fun _ hidle => by cases hidle⟩

theorem Orderly.stop (hs : Orderly s) :
    Orderly s.stop ∧ (s.client.started = true → s.stop.stopPhase = .idle → s.stop.Clean) := by
  unfold HemsClient.stop
  simp only
  split
  · next hempty =>
    refine hs.clear fun task htask => ?_
    have hlisted := hs.tabled.listed htask
    rw [hempty] at hlisted
    cases hlisted
  · refine ⟨⟨hs.tabled,fun tasks htasks task htask => ?_,nofun⟩,fun _ hreturned => by cases hreturned⟩
    cases htasks
    exact hs.tabled.listed htask

theorem Orderly.stopResumes (hs : Orderly s) (h : s.stopResumes = some t) :
    Orderly t ∧ (s.client.started = true → t.stopPhase = .idle → t.Clean) := by
  unfold HemsClient.stopResumes at h
  split at h
  · cases h
  · next tasks hgathering =>
    obtain ⟨hdone,he⟩ := Option.ite_none_right_eq_some.mp h
    cases he
    refine hs.clear fun task htask => ?_
    have hmem := hs.gathering tasks hgathering task htask
    obtain ⟨address,phase,hat,hphase⟩ := htask
    have hended := List.all_eq_true.mp hdone task hmem
    rw [hat] at hended
    have hended : phase = .done := by simpa using hended
    rw [hended] at hphase
    cases hphase
  · next hjoining =>
    obtain ⟨_,he⟩ := Option.ite_none_right_eq_some.mp h
    cases he
    obtain ⟨hstarted,hframes,htable,hcapabilities⟩ := hs.joining hjoining
    have hnone := hs.tabled.none_unfinished htable
    exact ⟨⟨hs.tabled,nofun,nofun⟩,fun _ _ => close_clean hstarted hnone hframes htable hcapabilities⟩

/-! ### Meanwhile -/

/-- A frame that schedules no discovery leaves cleared tables empty. -/
theorem processFrame_empty (hframes : r.pendingFrames = ∅) (htable : r.discoveryTasks = ∅)
    (hguard : r.schedules frame address = false) : (r.processFrame frame address).pendingFrames = ∅ := by
  cases processFrame_received r frame address with
  | ignored haccepts h => exact h.pendingFrames.trans hframes
  | queued haccepts h =>
    have hschedules : r.schedules frame address = true := by
      simp [Router.schedules,haccepts,htable]
    rw [hschedules] at hguard
    cases hguard
  | unidentified hprofiled hid hunknown h =>
    exact h.pendingFrames.trans ((scheduleAddressDiscovery_frame r address).2.1.trans hframes)
  | identified hprofiled h => exact h.pendingFrames.trans ((learn_frame r address _).1.trans hframes)
  | announced hprofiled h =>
    refine h.pendingFrames.trans ?_
    simp only [hframes]
    rfl

theorem forget_nil (h : s.getCapabilities = []) (frame : Frame) (address : Address) :
    s.forget frame address = [] := by
  unfold HemsClient.forget
  rw [h]
  split
  · split
    · split <;> rfl
    · rfl
  · rfl

theorem receive_started (s : Client) (frame : Frame) (address : Address) :
    (s.receive frame address).started = s.started := by
  have hstep : s.step (.receive frame address) = some (s.receive frame address) := rfl
  rcases step_lifecycle hstep with h | ⟨h,_⟩ | ⟨h,_⟩
  · exact congrArg Prod.fst h
  · cases h
  · cases h

theorem Orderly.receive (hs : Orderly s) (hguard : s.leaks (.receive frame address) = false)
    (h : s.receive frame address = some t) : Orderly t := by
  obtain ⟨hstarted,he⟩ := Option.ite_none_right_eq_some.mp h
  cases he
  obtain ⟨htabled,hunscheduled⟩ := hs.tabled.receive frame address
  have hstopping : s.stopPhase ≠ .idle → s.discovery.router.schedules frame address = false := by
    intro hphase
    simpa [HemsClient.leaks,hphase] using hguard
  refine ⟨htabled,fun tasks htasks task htask => ?_,fun hjoining => ?_⟩
  · have htasks : s.stopPhase = .gathering tasks := htasks
    have hsame := (hunscheduled (hstopping (by rw [htasks]; nofun))).1
    unfold Discovery.Unfinished at htask
    simp only [hsame] at htask
    exact hs.gathering tasks htasks task htask
  · have hjoining : s.stopPhase = .joining := hjoining
    have hquiet := hstopping (by rw [hjoining]; nofun)
    obtain ⟨_,hframes,htable,hcapabilities⟩ := hs.joining hjoining
    exact ⟨(receive_started s.client frame address).trans hstarted,
      processFrame_empty hframes htable hquiet,(hunscheduled hquiet).2.trans htable,
      forget_nil hcapabilities frame address⟩

/-- A discovery goes on. -/
theorem Orderly.discovery (hs : Orderly s) (htabled : Tabled d)
    (hunfinished : ∀ n, d.Unfinished n → s.discovery.Unfinished n)
    (hframes : s.discovery.router.pendingFrames = ∅ → d.router.pendingFrames = ∅)
    (htable : s.discovery.router.discoveryTasks = ∅ → d.router.discoveryTasks = ∅) :
    Orderly {s with discovery := d} := by
  refine ⟨htabled,fun tasks htasks task htask => ?_,fun hjoining => ?_⟩
  · exact hs.gathering tasks htasks task (hunfinished task htask)
  · obtain ⟨hstarted,hpending,hlisted,hcapabilities⟩ := hs.joining hjoining
    exact ⟨hstarted,hframes hpending,htable hlisted,hcapabilities⟩

theorem Orderly.advance {step : DiscoveryEvent} (hs : Orderly s) (h : Advanced s.discovery step d) :
    Orderly {s with discovery := d} := by
  obtain ⟨htabled,hunfinished⟩ := hs.tabled.advance h
  refine hs.discovery htabled hunfinished (fun hframes => ?_) fun htable => ?_
  · cases h with
    | started task address htask => exact hframes
    | ended task address htask =>
      simp only [Router.discoveryEnds,hframes]
      split <;> first | rfl | exact hframes
    | done task address htask => exact (discoveryDone_frame _ _ _).1.trans hframes
  · cases h with
    | started task address htask => exact htable
    | ended task address htask => exact (discoveryEnds_tasks _ _).1.trans htable
    | done task address htask =>
      simp only [Router.discoveryDone,htable]
      split <;> first | rfl | exact htable

theorem Orderly.starts (hs : Orderly s) (h : s.starts task = some t) : Orderly t := by
  unfold HemsClient.starts at h
  simp only at h
  split at h
  · next address htask =>
    cases h
    have hmove : ∀ phase, let d : Discovery :=
        {s.discovery with tasks := s.discovery.tasks.set task ⟨address,phase⟩}
        Tabled d ∧ ∀ n, d.Unfinished n → s.discovery.Unfinished n := fun phase =>
      hs.tabled.move htask rfl (fun _ => rfl) rfl fun _ _ _ => id
    exact hs.discovery (hmove _).1 (hmove _).2 id id
  · cases h

/-- Only requests and what is learned from them change. -/
theorem Orderly.congr (hs : Orderly s) (hdiscovery : t.discovery = s.discovery)
    (hphase : t.stopPhase = s.stopPhase) (hstarted : s.client.started = true → t.client.started = true)
    (hcapabilities : s.stopPhase = .joining → t.getCapabilities = s.getCapabilities) : Orderly t := by
  refine ⟨?_,?_,fun hjoining => ?_⟩
  · rw [hdiscovery]
    exact hs.tabled
  · rw [hdiscovery,hphase]
    exact hs.gathering
  · rw [hphase] at hjoining
    obtain ⟨hrunning,hframes,htable,hnone⟩ := hs.joining hjoining
    rw [hdiscovery,hcapabilities hjoining]
    exact ⟨hstarted hrunning,hframes,htable,hnone⟩

theorem Orderly.start (hs : Orderly s) (probed : Bool) : Orderly (s.start probed) := by
  unfold HemsClient.start
  split
  · exact hs
  · simp only
    split <;> exact hs.congr rfl rfl (fun _ => rfl) fun _ => rfl

theorem request_started {u v : Client} {event : ClientEvent} (hstop : event ≠ .stop)
    (h : u.step event = some v) (hstarted : u.started = true) : v.started = true := by
  rcases step_lifecycle h with hsame | ⟨_,hv⟩ | ⟨he,_⟩
  · exact (congrArg Prod.fst hsame).trans hstarted
  · rw [hv]
  · exact absurd he hstop

theorem Orderly.step (hs : Orderly s) (hguard : s.leaks event = false) (h : s.step event = some t) :
    Orderly t := by
  cases event with
  | start probed =>
    cases h
    exact hs.start probed
  | stop =>
    obtain ⟨_,he⟩ := Option.ite_none_right_eq_some.mp h
    cases he
    exact hs.stop.1
  | stopResumes => exact (hs.stopResumes h).1
  | receive frame address => exact hs.receive hguard h
  | starts task => exact hs.starts h
  | ends task =>
    obtain ⟨d,hd,rfl⟩ := Option.map_eq_some_iff.mp h
    exact hs.advance (ends_advanced hd)
  | done task =>
    obtain ⟨d,hd,rfl⟩ := Option.map_eq_some_iff.mp h
    exact hs.advance (done_advanced hd)
  | loopEnds =>
    obtain ⟨_,he⟩ := Option.ite_none_right_eq_some.mp h
    cases he
    exact hs.congr rfl rfl id fun _ => rfl
  | capability nodeId deoj =>
    cases h
    have hphase : s.stopPhase ≠ .joining := of_decide_eq_false hguard
    have hsetdefault : (s.setdefault (nodeId,deoj)).discovery = s.discovery ∧
        (s.setdefault (nodeId,deoj)).stopPhase = s.stopPhase ∧
        (s.setdefault (nodeId,deoj)).client = s.client := by
      unfold HemsClient.setdefault
      split <;> exact ⟨rfl,rfl,rfl⟩
    obtain ⟨hdiscovery,hsame,hclient⟩ := hsetdefault
    exact hs.congr hdiscovery hsame (fun hstarted => hclient ▸ hstarted) fun hjoining =>
      absurd hjoining hphase
  | request event =>
    simp only [HemsClient.step] at h
    split at h
    · cases h
    · cases h
    · cases h
    · next event _ hstop _ =>
      obtain ⟨client,hclient,rfl⟩ := Option.map_eq_some_iff.mp h
      exact hs.congr rfl rfl (request_started (fun he => hstop he) hclient) fun _ => rfl

theorem orderly_init : Orderly {} := ⟨⟨rfl,nofun⟩,nofun,nofun⟩

theorem orderly_reached (h : Reaches HemsClient.step (fun s event => s.leaks event = false) {} s) :
    Orderly s :=
  h.invariant orderly_init fun _ _ _ hs hguard ht => hs.step hguard ht

/-- Whenever `stop` returns, nothing is left, if no frame started a discovery and no call came
to its capability while it was awaiting the end of tasks. -/
theorem stop_leaves_nothing
    (h : Reaches HemsClient.step (fun s event => s.leaks event = false) {} s)
    (hstarted : s.client.started = true) (hevent : event = .stop ∨ event = .stopResumes)
    (hstep : s.step event = some t) (hreturned : t.stopPhase = .idle) : t.Clean := by
  have hs := orderly_reached h
  rcases hevent with rfl | rfl
  · obtain ⟨_,he⟩ := Option.ite_none_right_eq_some.mp hstep
    cases he
    exact hs.stop.2 hstarted hreturned
  · exact (hs.stopResumes hstep).2 hstarted hreturned

/-- A discovery runs when the client is stopped. -/
def stoppedDiscovering : List HemsEvent :=
  [.start true,.receive (statusNotification 0x30) "192.0.2.1",.starts 0,.stop,.ends 0,.done 0,.stopResumes,
    .loopEnds]

theorem stop_leaves_nothing_discovering : ∃ s t : HemsClient, s.discovery.tasks.length = 1 ∧
    s.step .stopResumes = some t ∧ t.Clean := by
  have hrun : (exec (fun s event => if !s.leaks event then HemsClient.step s event else none) {}
      stoppedDiscovering).any (fun s => decide (s.discovery.tasks.length = 1 ∧ s.client.started = true ∧
        (s.step .stopResumes).any (fun t => decide (t.stopPhase = .idle)) = true)) = true := by
    decide +kernel
  obtain ⟨s,hs,hend⟩ := (Option.any_eq_true _ _).mp hrun
  obtain ⟨htasks,hstarted,hlast⟩ := of_decide_eq_true hend
  obtain ⟨t,hstep,hidle⟩ := (Option.any_eq_true _ _).mp hlast
  have hreached := reaches_of_checked (fun s event => s.leaks event = false)
    (fun _ _ hcheck => by simpa using hcheck) hs
  exact ⟨s,t,htasks,hstep,stop_leaves_nothing hreached hstarted (Or.inr rfl) hstep
    (of_decide_eq_true hidle)⟩

/-- A notification from an unknown address comes while `stop` awaits the recurring discovery. -/
def notifiedStopping : List HemsEvent :=
  [.start true,.stop,.receive (statusNotification 0x30) "192.0.2.1",.loopEnds]

/-- The notification is queued, and its discovery scheduled, behind the back of `stop`. -/
theorem frame_left : ¬ ∀ s event t, Reachable HemsClient.step {} s → s.client.started = true →
    event = .stop ∨ event = .stopResumes → s.step event = some t → t.stopPhase = .idle → t.Clean := by
  have hrun : (exec HemsClient.step {} notifiedStopping).any (fun s => decide (s.client.started = true ∧
      (s.step .stopResumes).any (fun t => decide (t.stopPhase = .idle ∧
        (t.discovery.router.pendingFrames.lookup "192.0.2.1").isSome = true)) = true)) = true := by
    decide +kernel
  obtain ⟨s,hs,hend⟩ := (Option.any_eq_true _ _).mp hrun
  obtain ⟨hstarted,hlast⟩ := of_decide_eq_true hend
  obtain ⟨t,hstep,hlast⟩ := (Option.any_eq_true _ _).mp hlast
  obtain ⟨hidle,hqueued⟩ := of_decide_eq_true hlast
  intro h
  have hclean := h s .stopResumes t (reachable_of_exec hs) hstarted (Or.inr rfl) hstep hidle
  rw [hclean.pendingFrames] at hqueued
  cases hqueued

end Pyhems.Runtime

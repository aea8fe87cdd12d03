import Pyhems.Device.RangeRecovery
import Pyhems.Device.Staffing

/-! Every step of a manager moves its job tasks. -/
namespace Pyhems.Device
open Protocol Library Pyhems.Runtime Relation
open Get (Epc)

def Activity.isBusy : Activity → Bool
  | .idle => false
  | _ => true

/-- What the routine is to the jobs; none at its end. -/
def Routine.post : Routine → Option Post
  | .created nodeId => some (.created nodeId)
  | .jobs (some (nodeId,deque)) activity => some (.worker nodeId deque activity.isBusy)
  | .jobs none _ => some .outside
  | .setting _ _ _ => some .outside
  | .refresh _ _ _ => some .refresh
  | .consumer => some .consumer
  | .ended => none

def Manager.crew (s : Manager) : Crew where
  posts task := s.tasks[task]?.bind fun t => t.routine.post.map fun post => (post,t.cancelRequested)
  count := s.tasks.length
  running := s.running
  nodeJobs nodeId := s.nodeJobs.lookup nodeId
  nodeWorkers nodeId := s.nodeWorkers.lookup nodeId
  deques := s.deques
  dequeCount := s.dequeCount
  deferredFrames := s.deferredFrames
  registered key := (s.data key).isSome
  refreshTasks := s.refreshTasks
  eventConsumerTask := s.eventConsumerTask
  stopping := s.stopping
  enqueued := s.enqueued
  started := s.started
  finished := s.finished
  handled := s.handled

/-! ### The steps that the results exclude -/

/-- The await ends in `CancelledError`. -/
def Outcome.cancels : Outcome → Bool
  | .manufacturer (some attempt) =>
    match Get.readManufacturerCode attempt {} with
    | .error .cancelledError => true
    | _ => false
  | .properties (.error .cancelledError) => true
  | .reply (some (.error .cancelledError)) => true
  | _ => false

/-- The step cancels a task, or lets a cancelled one end. -/
def Manager.cancels (s : Manager) : ManagerEvent → Bool
  | .stop => true
  | .stopResumes => true
  | .cancel _ => true
  | .resume task outcome =>
    match s.tasks[task]? with
    | some t => t.cancelRequested || outcome.cancels
    | none => false
  | _ => false

/-- A function of the caller that selects EPCs ends in `CancelledError`. -/
def Config.Cancels (config : Config) : Prop :=
  ∃ classCode code, selectEpcs config.monitoredEpcs classCode code = .error .cancelledError ∨
    selectEpcs config.fastEpcs classCode code = .error .cancelledError

/-- A value frame for an object that is not registered finds the list of its node's job task full. -/
def Manager.full (s : Manager) (key : DeviceKey) (frame : Frame) : Bool :=
  decide (frame.esv ∈ valueEsvs) && (s.data key).isNone && decide (key.1 ∈ s.nodeWorkers) &&
    decide (maxDeferredFrames ≤ (s.deferredFrames key).length)

/-- The step drops such a frame. -/
def Manager.drops (s : Manager) : ManagerEvent → Bool
  | .consume =>
    match s.eventQueue with
    | .frame _ frame nodeId eoj :: _ => s.full (nodeId,eoj) frame
    | _ => false
  | .processFrame key frame => s.full key frame
  | _ => false

/-- The step is a call from outside, or of a task that such a call runs in. -/
def Manager.outside (s : Manager) : ManagerEvent → Bool
  | .start => true
  | .processFrame _ _ => true
  | .processInstanceList _ _ => true
  | .setProperties _ _ _ => true
  | .advance =>
    match s.running.bind fun task => s.tasks[task]? with
    | some ⟨.jobs none _,_⟩ => true
    | _ => false
  | .resume task _ =>
    match s.tasks[task]? with
    | some ⟨.jobs none _,_⟩ => true
    | some ⟨.setting _ _ _,_⟩ => true
    | _ => false
  | _ => false

/-- The event enqueues a job for a node without a worker. -/
def Manager.hires (config : Config) (s : Manager) : RuntimeEvent → Bool
  | .instanceList _ _ nodeId => decide (nodeId ∉ s.nodeWorkers)
  | .frame _ frame nodeId eoj =>
    decide (nodeId ∉ s.nodeWorkers) && decide (frame.esv ∈ valueEsvs) &&
      match s.data (nodeId,eoj) with
      | some node =>
        let properties := (writeProperties node.properties frame.properties).1
        decide (collectionRangeRecoveryProperties (config.bindings.get eoj.classCode)
          {node with properties} ≠ [])
      | none => false

/-- While `async_stop` is suspended, the step is no call from outside and consumes no event that
enqueues a job for a node without a worker. -/
def Manager.undisturbed (config : Config) (s : Manager) (event : ManagerEvent) : Bool :=
  decide (s.stopping = none) || !s.outside event &&
    match event with
    | .consume =>
      match s.eventQueue with
      | event :: _ => !s.hires config event
      | [] => true
    | _ => true

/-! ### What single operations change -/

def CrewMoves (cancels drops : Prop) (s t : Manager) : Prop :=
  ReflTransGen (Crew.Move cancels drops) s.crew t.crew

variable {config : Config} {cancels drops : Prop} {s t u : Manager} {key : DeviceKey} {task : Nat}
  {nodeId : NodeId} {worker : Option (NodeId × Nat)} {activity : Activity} {remaining : List EOJ}
  {r : Routine} {c : Bool}

theorem CrewMoves.trans (h : CrewMoves cancels drops s t) (h' : CrewMoves cancels drops t u) :
    CrewMoves cancels drops s u := ReflTransGen.trans h h'

theorem moves_of_crew (h : t.crew = s.crew) : CrewMoves cancels drops s t := by
  unfold CrewMoves
  rw [h]

theorem moves_single (h : Crew.Move cancels drops s.crew t.crew) : CrewMoves cancels drops s t := .single h

theorem crew_posts (htask : s.tasks[task]? = some ⟨r,c⟩) :
    s.crew.posts task = r.post.map fun post => (post,c) := by
  simp [Manager.crew,htask]

theorem post_nodeId (r : Routine) : (r.post.bind fun post => post.nodeId) = r.workerOf := by
  unfold Routine.post
  split <;> rfl

theorem routine_of_created (h : r.post = some (.created nodeId)) : r = .created nodeId := by
  unfold Routine.post at h
  split at h <;> cases h
  rfl

theorem works_iff : s.crew.Works nodeId task ↔
    ∃ t, s.tasks[task]? = some t ∧ t.routine.workerOf = some nodeId := by
  constructor
  · rintro ⟨post,c,hpost,hnode⟩
    obtain ⟨t,ht,hpost⟩ := Option.bind_eq_some_iff.mp hpost
    obtain ⟨post',hpost',he⟩ := Option.map_eq_some_iff.mp hpost
    cases he
    refine ⟨t,ht,?_⟩
    rw [← post_nodeId,hpost']
    exact hnode
  · rintro ⟨⟨r,c⟩,ht,hworker⟩
    rw [← post_nodeId] at hworker
    obtain ⟨post,hpost,hnode⟩ := Option.bind_eq_some_iff.mp hworker
    exact ⟨post,c,by rw [crew_posts ht,hpost]; rfl,hnode⟩

theorem works_of_jobTask (h : s.jobTask nodeId = some task) : s.crew.Works nodeId task := by
  obtain ⟨hlt,hworker,_⟩ := List.findIdx?_eq_some_iff_getElem.mp h
  exact works_iff.mpr ⟨_,List.getElem?_eq_getElem hlt,of_decide_eq_true hworker⟩

theorem not_works_of_jobTask (h : s.jobTask nodeId = none) (task : Nat) : ¬ s.crew.Works nodeId task := by
  intro hworks
  obtain ⟨t,ht,hworker⟩ := works_iff.mp hworks
  have hnone := List.findIdx?_eq_none_iff.mp h t (List.mem_of_getElem? ht)
  rw [decide_eq_true hworker] at hnone
  cases hnone

theorem crew_setTask (htask : s.tasks[task]? = some ⟨r,c⟩) (routine : Routine) :
    (s.setTask task routine).crew = s.crew.setPost task (routine.post.map fun post => (post,false)) := by
  obtain ⟨hlt,_⟩ := List.getElem?_eq_some_iff.mp htask
  refine Crew.ext ?_ (List.length_set ..) rfl rfl rfl rfl rfl rfl rfl rfl rfl rfl rfl rfl rfl rfl
  funext other
  by_cases hother : other = task
  · subst hother
    simp [Manager.crew,Manager.setTask,Crew.setPost,hlt]
  · simp [Manager.crew,Manager.setTask,Crew.setPost,hother,Ne.symm hother]

/-- A task that has ended is out of the crew, and the turn is free. -/
theorem crew_end (htask : s.tasks[task]? = some ⟨r,c⟩) :
    (s.suspend task .ended).crew = {s.crew.setPost task none with running := none} := by
  rw [← show _ = s.crew.setPost task none from crew_setTask htask .ended]
  rfl

theorem crew_createTask (s : Manager) (routine : Routine) {post : Post} (h : routine.post = some post) :
    (s.createTask routine).crew = s.crew.create post := by
  refine Crew.ext ?_ List.length_append rfl rfl rfl rfl rfl rfl rfl rfl rfl rfl rfl rfl rfl rfl
  funext other
  by_cases hother : other = s.tasks.length
  · subst hother
    simp [Manager.crew,Manager.createTask,Crew.create,Crew.setPost,h]
  · have hold : (s.tasks ++ [({routine} : Task)])[other]? = s.tasks[other]? := by
      rcases Nat.lt_or_gt_of_ne hother with hlt | hgt
      · exact List.getElem?_append_left hlt
      · rw [List.getElem?_eq_none (Nat.le_of_lt hgt),List.getElem?_eq_none]
        rw [List.length_append]
        exact hgt
    simp [Manager.crew,Manager.createTask,Crew.create,Crew.setPost,hother,hold]

theorem crew_cancelTasks (cancelled : List Nat) :
    (s.cancelTasks cancelled).crew = s.crew.cancelTasks cancelled := by
  refine Crew.ext ?_ (List.length_mapIdx ..) rfl rfl rfl rfl rfl rfl rfl rfl rfl rfl rfl rfl rfl rfl
  funext other
  simp only [Manager.crew,Manager.cancelTasks,Crew.cancelTasks,List.getElem?_mapIdx]
  cases s.tasks[other]? with
  | none => rfl
  | some t =>
    simp only [Option.map_some,Option.bind_some]
    cases t.routine.post <;> rfl

theorem crew_appendJob (nodeId : NodeId) (job : Job) :
    (s.appendJob nodeId job).crew = s.crew.appendJob nodeId job := by
  unfold Manager.appendJob Crew.appendJob
  simp only [Manager.crew]
  cases s.nodeJobs.lookup nodeId with
  | some deque => rfl
  | none =>
    refine Crew.ext rfl rfl rfl ?_ rfl rfl rfl rfl rfl rfl rfl rfl rfl rfl rfl rfl
    funext nodeId'
    by_cases hn : nodeId' = nodeId
    · subst hn
      simp
    · simp [hn]

theorem crew_endWorker (htask : s.tasks[task]? = some ⟨r,c⟩) (nodeId : NodeId) :
    (s.endWorker task nodeId).crew = s.crew.dismiss task nodeId := by
  have hposts := congrArg Crew.posts (crew_setTask htask .ended)
  refine Crew.ext hposts (List.length_set ..) rfl ?_ ?_ rfl rfl ?_ rfl rfl rfl rfl rfl rfl rfl rfl
  · funext nodeId'
    by_cases hn : nodeId' = nodeId
    · subst hn
      simp [Manager.crew,Manager.endWorker,Manager.suspend,Manager.setTask,Crew.dismiss]
    · simp [Manager.crew,Manager.endWorker,Manager.suspend,Manager.setTask,Crew.dismiss,Crew.setPost,hn]
  · funext nodeId'
    by_cases hn : nodeId' = nodeId
    · subst hn
      simp [Manager.crew,Manager.endWorker,Manager.suspend,Manager.setTask,Crew.dismiss]
    · simp [Manager.crew,Manager.endWorker,Manager.suspend,Manager.setTask,Crew.dismiss,Crew.setPost,hn]
  · funext key
    simp [Manager.crew,Manager.endWorker,Manager.suspend,Manager.setTask,Crew.dismiss,Crew.setPost]

theorem crew_putNode (hnode : (s.data key).isSome) (node : NodeState) : (s.putNode key node).crew = s.crew := by
  refine Crew.ext rfl rfl rfl rfl rfl rfl rfl rfl ?_ rfl rfl rfl rfl rfl rfl rfl
  funext key'
  by_cases hkey : key' = key
  · subst hkey
    simp [Manager.crew,Manager.putNode,hnode]
  · simp [Manager.crew,Manager.putNode,hkey]

theorem crew_notify (key : DeviceKey) (epcs : Finset Epc) :
    (s.notifyPropertiesChanged key epcs).crew = s.crew := by
  unfold Manager.notifyPropertiesChanged
  split <;> rfl

/-! ### Frames -/

theorem moves_enqueueNodeJob (hfree : s.stopping = none ∨ nodeId ∈ s.nodeWorkers) (job : Job) :
    CrewMoves cancels drops s (s.enqueueNodeJob nodeId job) := by
  have hworkers : (s.appendJob nodeId job).nodeWorkers = s.nodeWorkers := by
    unfold Manager.appendJob
    simp only
    split <;> rfl
  unfold Manager.enqueueNodeJob
  simp only [hworkers]
  split
  · next hmem =>
    apply moves_single
    rw [crew_appendJob]
    exact .append _ nodeId job (AList.lookup_isSome.mpr hmem)
  · next hmem =>
    apply moves_single
    have hnone : s.crew.nodeWorkers nodeId = none := AList.lookup_eq_none.mpr hmem
    have hcreate := crew_createTask (s.appendJob nodeId job) (.created nodeId) rfl
    have hposts := congrArg Crew.posts hcreate
    have hcount := congrArg Crew.count hcreate
    have hhire : ({(s.appendJob nodeId job).createTask (.created nodeId) with
        nodeWorkers := s.nodeWorkers.insert nodeId (s.appendJob nodeId job).tasks.length} : Manager).crew =
          (s.appendJob nodeId job).crew.hire nodeId := by
      refine Crew.ext hposts hcount rfl rfl ?_ rfl rfl rfl rfl rfl rfl rfl rfl rfl rfl rfl
      funext nodeId'
      by_cases hn : nodeId' = nodeId
      · subst hn
        simp [Manager.crew,Crew.hire]
      · simp [Manager.crew,Crew.hire,Crew.create,Crew.setPost,hn,hworkers]
    rw [hhire,crew_appendJob]
    exact .hire _ nodeId job hnone (hfree.resolve_right hmem)

theorem moves_checkRanges {node : NodeState} (hfree : s.stopping = none ∨ key.1 ∈ s.nodeWorkers ∨
      collectionRangeRecoveryProperties (config.bindings.get key.2.classCode) node = []) :
    CrewMoves cancels drops s (s.checkRanges config key node) := by
  unfold Manager.checkRanges
  split
  · exact .refl
  · next hproperties =>
    apply moves_enqueueNodeJob
    rcases hfree with hfree | hmem | hnone
    · exact Or.inl hfree
    · exact Or.inr hmem
    · exact absurd hnone hproperties

/-- A value frame for a registered object: it may enqueue a job. -/
theorem moves_applyFrame {node : NodeState} (hnode : s.data key = some node) {frame : Frame}
    (hfree : s.stopping = none ∨ key.1 ∈ s.nodeWorkers ∨ frame.esv ∉ valueEsvs ∨
      collectionRangeRecoveryProperties (config.bindings.get key.2.classCode)
        {node with properties := (writeProperties node.properties frame.properties).1} = []) :
    CrewMoves cancels drops s (s.applyFrame config key node frame) := by
  unfold Manager.applyFrame
  split
  · exact .refl
  · next hvalue =>
    have hput := crew_putNode (congrArg Option.isSome hnode)
      {node with properties := (writeProperties node.properties frame.properties).1}
    apply (moves_of_crew hput).trans
    apply CrewMoves.trans
    · apply moves_checkRanges
      rcases hfree with hfree | hmem | hesv | hnone
      · exact Or.inl hfree
      · exact Or.inr (Or.inl hmem)
      · exact absurd hesv hvalue
      · exact Or.inr (Or.inr hnone)
    · exact moves_of_crew (crew_notify key _)

theorem enqueueNodeJob_stopping (nodeId : NodeId) (job : Job) :
    (s.enqueueNodeJob nodeId job).stopping = s.stopping := by
  have happend : (s.appendJob nodeId job).stopping = s.stopping := by
    unfold Manager.appendJob
    simp only
    split <;> rfl
  unfold Manager.enqueueNodeJob
  simp only
  split <;> exact happend

theorem applyFrame_stopping (node : NodeState) (frame : Frame) :
    (s.applyFrame config key node frame).stopping = s.stopping := by
  unfold Manager.applyFrame Manager.notifyPropertiesChanged Manager.checkRanges
  split
  · rfl
  · simp only
    split_ifs
    · rfl
    · exact enqueueNodeJob_stopping (s := s.putNode key _) ..
    · rfl
    · exact enqueueNodeJob_stopping (s := s.putNode key _) ..

theorem moves_applyFrames (hfree : s.stopping = none) (frames : List Frame) :
    CrewMoves cancels drops s (s.applyFrames config key frames) := by
  unfold Manager.applyFrames
  induction frames generalizing s with
  | nil => exact .refl
  | cons frame frames ih =>
    rw [List.foldl_cons]
    split
    · next node hnode =>
      exact (moves_applyFrame hnode (Or.inl hfree)).trans (ih ((applyFrame_stopping node frame).trans hfree))
    · exact ih hfree

theorem moves_processFrameEvent {frame : Frame}
    (hfree : s.stopping = none ∨ key.1 ∈ s.nodeWorkers ∨ frame.esv ∉ valueEsvs ∨
      ∀ node, s.data key = some node → collectionRangeRecoveryProperties (config.bindings.get key.2.classCode)
        {node with properties := (writeProperties node.properties frame.properties).1} = [])
    (hroom : s.full key frame = true → drops) :
    CrewMoves cancels drops s (s.processFrameEvent config key frame) := by
  unfold Manager.processFrameEvent
  split
  · exact .refl
  · split
    · next node hnode =>
      refine moves_applyFrame hnode ?_
      rcases hfree with hfree | hmem | hesv | hnone
      · exact Or.inl hfree
      · exact Or.inr (Or.inl hmem)
      · exact Or.inr (Or.inr (Or.inl hesv))
      · exact Or.inr (Or.inr (Or.inr (hnone node hnode)))
    · next hnode =>
      apply moves_single
      have hhandle : ((s.deferFrame key frame).recordFrame key frame).crew =
          (s.crew.defer key frame).record key frame (s.jobTask key.1) := by
        have hjob : (s.deferFrame key frame).jobTask key.1 = s.jobTask key.1 := by
          unfold Manager.deferFrame
          simp only
          split <;> rfl
        have hdefer : (s.deferFrame key frame).crew = s.crew.defer key frame := by
          unfold Manager.deferFrame Crew.defer
          simp only [Manager.crew,AList.lookup_isSome]
          split <;> rfl
        unfold Manager.recordFrame Crew.record
        rw [hjob,← hdefer]
        split <;> rfl
      rw [hhandle]
      refine .handle _ key frame _ ?_ (fun task htask => works_of_jobTask htask)
        (fun hnone task => not_works_of_jobTask hnone task) ?_
      · simp [Manager.crew,hnode]
      · by_cases hd : drops
        · exact Or.inl hd
        · refine Or.inr fun hesv hworker => ?_
          by_contra hfull
          refine hd (hroom ?_)
          simp only [Manager.full,hnode,Bool.and_eq_true,decide_eq_true_eq]
          exact ⟨⟨⟨hesv,rfl⟩,AList.lookup_isSome.mp hworker⟩,Nat.le_of_not_lt hfull⟩

/-! ### Jobs -/

theorem setPost_eq_self {d : Crew} {post : Option (Post × Bool)} (h : d.posts task = post) :
    d.setPost task post = d := by
  subst h
  exact Crew.ext (Function.update_eq_self ..) rfl rfl rfl rfl rfl rfl rfl rfl rfl rfl rfl rfl rfl rfl rfl

theorem post_jobs (worker : Option (NodeId × Nat)) (activity : Activity) :
    ∃ post, (Routine.jobs worker activity).post = some post ∧
      (activity.isBusy = true → post.isIdle = false) := by
  cases worker with
  | none => exact ⟨_,rfl,fun _ => rfl⟩
  | some owner => exact ⟨_,rfl,fun hbusy => by simp [Post.isIdle,hbusy]⟩

theorem post_busy {activity' : Activity} (hbusy : activity.isBusy = true) (hbusy' : activity'.isBusy = true) :
    (Routine.jobs worker activity').post = (Routine.jobs worker activity).post := by
  unfold Routine.post
  cases worker with
  | none => rfl
  | some owner => simp only [hbusy,hbusy']

/-- A job goes on, up to its next await or past it. -/
theorem moves_job {activity' : Activity} (hu : u.crew = s.crew)
    (htask : u.tasks[task]? = some ⟨.jobs worker activity,false⟩) (hturn : s.crew.Turn task)
    (hbusy : activity.isBusy = true) (hbusy' : activity'.isBusy = true) {running : Option Nat}
    (hrunning : running = some task ∨ running = none) :
    CrewMoves cancels drops s {u.setTask task (.jobs worker activity') with running} := by
  obtain ⟨post,hpost,hidle⟩ := post_jobs worker activity
  have hself : s.crew.posts task = some (post,false) := by
    rw [← hu,crew_posts htask,hpost]
    rfl
  have hset : (u.setTask task (.jobs worker activity')).crew = s.crew := by
    rw [crew_setTask htask,post_busy hbusy hbusy',hpost,hu]
    exact setPost_eq_self hself
  have hcrew : ({u.setTask task (.jobs worker activity') with running} : Manager).crew =
      {s.crew with running} := by
    rw [← hset]
    rfl
  apply moves_single
  rw [hcrew]
  exact .turn _ task post running hturn hself (hrunning.imp id fun hnone => ⟨hnone,hidle hbusy⟩)

theorem moves_interrupt (htask : s.tasks[task]? = some ⟨.jobs worker activity,c⟩) (hturn : s.crew.Turn task)
    (hcancels : cancels) : CrewMoves cancels drops s (s.interrupt task worker activity) := by
  have hpending : ∀ key, ({s with pendingSetups := s.pendingSetups.erase key} : Manager).crew = s.crew :=
    fun _ => rfl
  have hpost := crew_posts htask
  cases worker with
  | none =>
    have hended : (s.interrupt task none activity).crew = (s.suspend task .ended).crew := by
      unfold Manager.interrupt
      cases activity <;> rfl
    apply moves_single
    rw [hended,crew_end htask]
    exact .leave _ task _ c hturn hpost rfl
  | some owner =>
    have hcrew : (s.interrupt task (some owner) activity).crew = s.crew.dismiss task owner.1 := by
      rw [← crew_endWorker htask owner.1]
      unfold Manager.interrupt
      cases activity <;> rfl
    apply moves_single
    rw [hcrew]
    exact .dismiss _ task owner.1 owner.2 _ c hturn hpost (Or.inl hcancels)

theorem moves_finishJob (hu : u.crew = s.crew) (htask : u.tasks[task]? = some ⟨.jobs worker activity,false⟩)
    (hturn : s.crew.Turn task) (hbusy : activity.isBusy = true) :
    CrewMoves cancels drops s (u.finishJob task worker) := by
  cases worker with
  | none =>
    have hpost : s.crew.posts task = some (.outside,false) := by
      rw [← hu,crew_posts htask]
      rfl
    have hset : (u.setTask task (.jobs none .idle)).crew = s.crew := by
      rw [crew_setTask htask,hu]
      exact setPost_eq_self hpost
    have hcrew : (u.finishJob task none).crew = {s.crew with running := some task} := by
      rw [← hset]
      rfl
    apply moves_single
    rw [hcrew]
    exact .turn _ task _ _ hturn hpost (Or.inl rfl)
  | some owner =>
    have hpost : s.crew.posts task = some (.worker owner.1 owner.2 true,false) := by
      rw [← hu,crew_posts htask]
      simp only [Routine.post,hbusy,Option.map_some]
    have hset := crew_setTask htask (.jobs (some owner) .idle)
    have hcrew : (u.finishJob task (some owner)).crew =
        {s.crew.setPost task (some (.worker owner.1 owner.2 false,false)) with
          finished := Function.update s.crew.finished owner.1 (s.crew.finished owner.1+1),
          running := some task} := by
      rw [← hu,← show _ = u.crew.setPost task (some (.worker owner.1 owner.2 false,false)) from hset]
      rfl
    apply moves_single
    rw [hcrew]
    exact .finish _ task owner.1 owner.2 hturn hpost

section Jobs
variable (htask : s.tasks[task]? = some ⟨.jobs worker activity,false⟩) (hturn : s.crew.Turn task)
  (hbusy : activity.isBusy = true)
include htask hturn hbusy

theorem moves_endSetup : CrewMoves cancels drops s (s.endSetup task worker key remaining) :=
  moves_job (u := {s with pendingSetups := s.pendingSetups.erase key}) rfl htask hturn hbusy rfl (Or.inl rfl)

theorem moves_raise {exn : Exn} (hcancels : exn = .cancelledError → cancels) :
    CrewMoves cancels drops s (s.raise task worker activity exn) := by
  unfold Manager.raise
  split
  · exact moves_interrupt htask hturn (hcancels rfl)
  · exact moves_endSetup htask hturn hbusy
  · exact moves_finishJob rfl htask hturn hbusy

theorem moves_beginSetup : CrewMoves cancels drops s (s.beginSetup task worker key remaining) :=
  moves_job (u := {s with pendingSetups := insert key s.pendingSetups}.request (.readManufacturerCode key))
    rfl htask hturn hbusy rfl (Or.inr rfl)

end Jobs

theorem moves_requestProperties
    (htask : s.tasks[task]? = some ⟨.jobs worker (.setup key .manufacturerCode remaining),false⟩)
    (hturn : s.crew.Turn task) (hconfig : config.Cancels → cancels) (code : Nat) :
    CrewMoves cancels drops s (s.requestProperties config task worker key remaining code) := by
  unfold Manager.requestProperties
  split
  · next exn hselect =>
    exact moves_raise htask hturn rfl fun he => hconfig ⟨_,_,Or.inl (he ▸ hselect)⟩
  · exact moves_job (u := s.request _) rfl htask hturn rfl rfl (Or.inr rfl)

theorem moves_setupIdentified
    (htask : s.tasks[task]? = some ⟨.jobs worker (.setup key .manufacturerCode remaining),false⟩)
    (hturn : s.crew.Turn task) (hconfig : config.Cancels → cancels) {answer : Option Get.Attempt}
    (hcancels : (Outcome.manufacturer answer).cancels = true → cancels)
    (h : s.setupIdentified config task worker key remaining answer = some t) :
    CrewMoves cancels drops s t := by
  cases answer with
  | none =>
    obtain ⟨code,_,rfl⟩ := Option.map_eq_some_iff.mp h
    exact moves_requestProperties htask hturn hconfig code
  | some attempt =>
    have hexn : ∀ exn, (s.readManufacturerCode key attempt).1 = .error exn →
        exn = .cancelledError → cancels := by
      rintro exn hread rfl
      apply hcancels
      unfold Manager.readManufacturerCode at hread
      unfold Outcome.cancels
      split at hread
      · next herror =>
        cases hread
        simp only [herror]
      · cases hread
      · cases hread
    rcases readManufacturerCode_cases s key attempt with ⟨exn,hread⟩ | ⟨edt,_,hread⟩
    · simp only [Manager.setupIdentified,hread] at h
      cases h
      exact moves_raise htask hturn rfl (hexn exn (by rw [hread]))
    · simp only [Manager.setupIdentified,hread] at h
      cases h
      let u : Manager := {s with
        manufacturerCodes := Function.update s.manufacturerCodes key (some (fromBytes (edt.take 3))),
        identified := s.identified ++ [(key,edt)]}
      have hu : CrewMoves cancels drops s u := moves_of_crew rfl
      exact hu.trans (moves_requestProperties (s := u) htask hturn hconfig _)

theorem moves_register {node : NodeState} {code : Nat} {initial : Finset Epc}
    (htask : s.tasks[task]? = some ⟨.jobs worker (.setup key (.properties code initial) remaining),false⟩)
    (hturn : s.crew.Turn task) (hfree : s.stopping = none) :
    CrewMoves cancels drops s (s.register config task worker key remaining node) := by
  let u : Manager := {s.putNode key node with deferredFrames := Function.update s.deferredFrames key []}
  have hcrew : u.crew = {s.crew with registered := Function.update s.crew.registered key true,
                                     deferredFrames := Function.update s.crew.deferredFrames key []} := by
    refine Crew.ext rfl rfl rfl rfl rfl rfl rfl rfl ?_ rfl rfl rfl rfl rfl rfl rfl
    funext key'
    by_cases hkey : key' = key
    · subst hkey
      simp [Manager.crew,Manager.putNode,u]
    · simp [Manager.crew,Manager.putNode,u,hkey]
  have hregister : CrewMoves cancels drops s u := by
    apply moves_single
    rw [hcrew]
    exact .register _ key
  let v := u.proceed task (.jobs worker (.setup key .registered remaining))
  have hproceed : CrewMoves cancels drops u v :=
    moves_job (s := u) (u := u) rfl htask hturn rfl rfl (Or.inl rfl)
  exact hregister.trans (hproceed.trans (moves_applyFrames (s := v) hfree (s.deferredFrames key)))

theorem setupNode_error {code : Nat} {initial : Finset Epc} {props : List Property} {exn : Exn}
    (h : setupNode config key code initial props = .error exn) (hexn : exn = .cancelledError) :
    config.Cancels := by
  subst hexn
  unfold setupNode at h
  cases hbytes : toBytes code 3 with
  | error exn =>
    rw [hbytes] at h
    cases h
    unfold toBytes at hbytes
    split at hbytes <;> cases hbytes
  | ok bytes =>
    simp only [hbytes,bind,Except.bind] at h
    split at h
    · split at h
      · next exn hselect =>
        cases h
        exact ⟨_,_,Or.inr hselect⟩
      · cases h
    · cases h

theorem moves_setupRead {code : Nat} {initial : Finset Epc}
    (htask : s.tasks[task]? = some ⟨.jobs worker (.setup key (.properties code initial) remaining),false⟩)
    (hturn : s.crew.Turn task) (hconfig : config.Cancels → cancels) (hfree : s.stopping = none)
    (props : List Property) :
    CrewMoves cancels drops s (s.setupRead config task worker key remaining code initial props) := by
  let u : Manager := {s with setupReads := s.setupReads ++ [(key,props)]}
  have hu : CrewMoves cancels drops s u := moves_of_crew rfl
  apply hu.trans
  unfold Manager.setupRead
  split
  · next exn herror => exact moves_raise (s := u) htask hturn rfl fun he => hconfig (setupNode_error herror he)
  · exact moves_endSetup (s := u) htask hturn rfl
  · exact moves_register (s := u) htask hturn hfree

theorem beginRecovery_crew (config : Config) (s : Manager) (key : DeviceKey) :
    (s.beginRecovery config key).1.crew = s.crew := by
  rcases beginRecovery_cases config s key with hbegin | ⟨node,prop,properties,hnode,_,hbegin⟩
  · rw [hbegin]
  · rw [hbegin]
    exact crew_putNode (by rw [hnode]; rfl) _

theorem endRecovery_crew (key : DeviceKey) (written : List Property) (result : SetRequestResult) :
    (s.endRecovery key written result).1.crew = s.crew := by
  unfold Manager.endRecovery
  split
  · rfl
  · next node hnode =>
    split
    · exact crew_putNode (by rw [hnode]; rfl) _
    · rfl

theorem moves_setupRecovery
    (htask : s.tasks[task]? = some ⟨.jobs worker (.setup key .registered remaining),false⟩)
    (hturn : s.crew.Turn task) :
    CrewMoves cancels drops s (s.setupRecovery config task worker key remaining) := by
  have hcrew := beginRecovery_crew config s key
  rw [← beginRecovery_tasks config s key] at htask
  unfold Manager.setupRecovery
  split
  · next u hu =>
    rw [hu] at htask hcrew
    exact moves_job hcrew htask hturn rfl rfl (Or.inl rfl)
  · next u written _ hu =>
    rw [hu] at htask hcrew
    exact moves_job hcrew htask hturn rfl rfl (Or.inr rfl)

theorem moves_jobRecovery (htask : s.tasks[task]? = some ⟨.jobs worker (.recovering key none),false⟩)
    (hturn : s.crew.Turn task) : CrewMoves cancels drops s (s.jobRecovery config task worker key) := by
  have hcrew := beginRecovery_crew config s key
  rw [← beginRecovery_tasks config s key] at htask
  unfold Manager.jobRecovery
  split
  · next u hu =>
    rw [hu] at htask hcrew
    exact moves_finishJob hcrew htask hturn rfl
  · next u written _ hu =>
    rw [hu] at htask hcrew
    exact moves_job hcrew htask hturn rfl rfl (Or.inr rfl)

theorem reply_cancels {reply : Reply} {exn : Exn} (hreply : reply = some (.error exn))
    (hcancels : (Outcome.reply reply).cancels = true → cancels) : exn = .cancelledError → cancels := by
  rintro rfl
  subst hreply
  exact hcancels rfl

theorem moves_setupRecovered {written : List Property} {reply : Reply}
    (htask : s.tasks[task]? = some ⟨.jobs worker (.setup key (.recovery written) remaining),false⟩)
    (hturn : s.crew.Turn task) (hcancels : (Outcome.reply reply).cancels = true → cancels) :
    CrewMoves cancels drops s (s.setupRecovered task worker key remaining written reply) := by
  unfold Manager.setupRecovered
  split
  · next exn hexn => exact moves_raise htask hturn rfl (reply_cancels (setProperties_error hexn) hcancels)
  · next result _ =>
    rw [← endRecovery_tasks key written result] at htask
    exact moves_job (endRecovery_crew key written result) htask hturn rfl rfl (Or.inl rfl)

theorem moves_jobRecovered {written : List Property} {reply : Reply}
    (htask : s.tasks[task]? = some ⟨.jobs worker (.recovering key (some written)),false⟩)
    (hturn : s.crew.Turn task) (hcancels : (Outcome.reply reply).cancels = true → cancels) :
    CrewMoves cancels drops s (s.jobRecovered task worker key written reply) := by
  unfold Manager.jobRecovered
  split
  · next exn hexn => exact moves_raise htask hturn rfl (reply_cancels (setProperties_error hexn) hcancels)
  · next result _ =>
    rw [← endRecovery_tasks key written result,← notify_tasks key] at htask
    exact moves_finishJob ((crew_notify key _).trans (endRecovery_crew key written result)) htask hturn rfl

theorem moves_sendInitialNotification
    (htask : s.tasks[task]? = some ⟨.jobs worker (.setup key .recovered remaining),false⟩)
    (hturn : s.crew.Turn task) (h : s.sendInitialNotification task worker key remaining = some t) :
    CrewMoves cancels drops s t := by
  obtain ⟨node,_,ht⟩ := Option.map_eq_some_iff.mp h
  split at ht
  · cases ht
    exact moves_endSetup (s := s.emit (.deviceAdded key)) htask hturn rfl
  · cases ht
    exact moves_job (u := s.request _) rfl htask hturn rfl rfl (Or.inr rfl)

theorem moves_setupNotified {reply : Reply}
    (htask : s.tasks[task]? = some ⟨.jobs worker (.setup key .notification remaining),false⟩)
    (hturn : s.crew.Turn task) (hcancels : (Outcome.reply reply).cancels = true → cancels)
    (h : s.setupNotified task worker key remaining reply = some t) : CrewMoves cancels drops s t := by
  obtain ⟨node,hnode,ht⟩ := Option.map_eq_some_iff.mp h
  split at ht
  · next exn hexn =>
    cases ht
    exact moves_raise htask hturn rfl (reply_cancels (requestNotifications_error hexn) hcancels)
  · next result _ =>
    cases ht
    let u : Manager := {s.putNode key (node.notified result) with
      infAnswers := s.infAnswers ++ (reply.frame.map fun frame => (key,frame)).toList}
    have hknown : (s.data key).isSome := by
      rw [hnode]
      rfl
    -- Answers are no part of what the tasks share.
    have hu : u.crew = (s.putNode key (node.notified result)).crew := rfl
    have hput : CrewMoves cancels drops s u := moves_of_crew (hu.trans (crew_putNode hknown _))
    apply hput.trans
    exact moves_endSetup (s := u.emit (.deviceAdded key)) htask hturn rfl

theorem moves_startJob {deque : Nat} {job : Job} {jobs : List Job} {activity' : Activity}
    (htask : s.tasks[task]? = some ⟨.jobs (some (nodeId,deque)) .idle,false⟩) (hturn : s.crew.Turn task)
    (hdeque : s.deques (nodeId,deque) = job :: jobs) (hbusy : activity'.isBusy = true) :
    CrewMoves cancels drops s ({s with
      deques := Function.update s.deques (nodeId,deque) jobs,
      started := Function.update s.started nodeId (s.started nodeId ++ [job])}.proceed task
        (.jobs (some (nodeId,deque)) activity')) := by
  have hset := crew_setTask htask (.jobs (some (nodeId,deque)) activity')
  have hpost : (Routine.jobs (some (nodeId,deque)) activity').post = some (.worker nodeId deque true) := by
    simp only [Routine.post,hbusy]
  rw [hpost] at hset
  have hposts := congrArg Crew.posts hset
  have hmove : Crew.Move cancels drops s.crew _ :=
    .start _ task nodeId deque job jobs hturn (crew_posts htask) hdeque
  refine ReflTransGen.single ?_
  convert hmove using 1
  exact Crew.ext hposts (List.length_set ..) rfl rfl rfl rfl rfl rfl rfl rfl rfl rfl rfl rfl rfl rfl

theorem moves_advance (htask : s.tasks[task]? = some ⟨.jobs worker activity,false⟩)
    (hrunning : s.running = some task) (h : s.advance config task worker activity = some t) :
    CrewMoves cancels drops s t := by
  have hturn : s.crew.Turn task := Or.inr hrunning
  unfold Manager.advance at h
  split at h
  · split at h
    · cases h
      apply moves_single
      rw [crew_end htask]
      exact .leave _ task _ false hturn (crew_posts htask) rfl
    · next nodeId deque =>
      split at h
      · next hdeque =>
        cases h
        apply moves_single
        rw [crew_endWorker htask]
        exact .dismiss _ task nodeId deque false false hturn (crew_posts htask) (Or.inr ⟨rfl,hdeque⟩)
      · next job jobs hdeque =>
        cases h
        refine moves_startJob htask hturn hdeque ?_
        cases job <;> rfl
  · cases h
    exact moves_finishJob rfl htask hturn rfl
  · split at h
    · cases h
      exact moves_job (u := s) rfl htask hturn rfl rfl (Or.inl rfl)
    · cases h
      exact moves_beginSetup htask hturn rfl
  · cases h
    exact moves_setupRecovery htask hturn
  · exact moves_sendInitialNotification htask hturn h
  · cases h
    exact moves_jobRecovery htask hturn
  · cases h

theorem moves_resumeJob {outcome : Outcome} (htask : s.tasks[task]? = some ⟨.jobs worker activity,false⟩)
    (hturn : s.crew.Turn task) (hconfig : config.Cancels → cancels)
    (hcancels : outcome.cancels = true → cancels) (hfree : s.stopping = none)
    (h : s.resumeJob config task worker activity outcome = some t) : CrewMoves cancels drops s t := by
  unfold Manager.resumeJob at h
  split at h
  · exact moves_setupIdentified htask hturn hconfig hcancels h
  · cases h
    exact moves_setupRead htask hturn hconfig hfree _
  · next exn =>
    cases h
    exact moves_raise htask hturn rfl fun he => hcancels (by subst he; rfl)
  · cases h
    exact moves_setupRecovered htask hturn hcancels
  · exact moves_setupNotified htask hturn hcancels h
  · cases h
    exact moves_jobRecovered htask hturn hcancels
  · cases h

/-! ### Other tasks -/

/-- A task that works for no node ends. -/
theorem moves_end {post : Post} (hu : u.crew = s.crew) (htask : u.tasks[task]? = some ⟨r,c⟩)
    (hturn : s.crew.Turn task) (hpost : r.post = some post) (hworker : post.nodeId = none) :
    CrewMoves cancels drops s (u.suspend task .ended) := by
  apply moves_single
  rw [crew_end htask,hu]
  exact .leave _ task post c hturn (by rw [← hu,crew_posts htask,hpost]; rfl) hworker

theorem moves_scheduleRefresh {node : NodeState} (hfree : s.stopping = none) (epcs : Finset Epc) :
    CrewMoves cancels drops s (s.scheduleRefresh key node epcs) := by
  unfold Manager.scheduleRefresh
  simp only
  split
  · exact .refl
  · have hcreate := crew_createTask s (.refresh key (sorted (epcs ∩ node.getEpcs)) false) rfl
    have hposts := congrArg Crew.posts hcreate
    have hcount := congrArg Crew.count hcreate
    refine ReflTransGen.single ?_
    convert (Crew.Move.refresh _ hfree : Crew.Move cancels drops s.crew _) using 1
    exact Crew.ext hposts hcount rfl rfl rfl rfl rfl rfl rfl rfl rfl rfl rfl rfl rfl rfl

theorem moves_propertiesSet (hfree : s.stopping = none) (key : DeviceKey) (properties : List Property)
    (refresh : Bool) (result : SetRequestResult) :
    CrewMoves cancels drops s (s.propertiesSet key properties refresh result) := by
  unfold Manager.propertiesSet
  split
  · exact .refl
  · next node hnode =>
    split
    · exact .refl
    · let written := applyAcceptedProperties node.properties properties result.acceptedEpcs
      let node' : NodeState := {node with properties := written.1}
      let v := (s.putNode key node').notifyPropertiesChanged key written.2
      have hv : v.crew = s.crew := (crew_notify key written.2).trans (crew_putNode (by rw [hnode]; rfl) node')
      apply (moves_of_crew hv).trans
      unfold Manager.refreshAccepted
      split
      · exact moves_scheduleRefresh ((congrArg Crew.stopping hv).trans hfree) result.acceptedEpcs
      · exact .refl

theorem propertiesSet_running (key : DeviceKey) (properties : List Property) (refresh : Bool)
    (result : SetRequestResult) : (s.propertiesSet key properties refresh result).running = s.running := by
  unfold Manager.propertiesSet Manager.refreshAccepted Manager.scheduleRefresh Manager.notifyPropertiesChanged
  split
  · rfl
  · simp only
    split_ifs <;> rfl

theorem moves_resumeOther {outcome : Outcome} (htask : s.tasks[task]? = some ⟨r,false⟩)
    (hturn : s.crew.Turn task) (hrunning : s.running = none)
    (hfree : (∃ key properties refresh, r = .setting key properties refresh) → s.stopping = none)
    (h : s.resumeOther task r outcome = some t) : CrewMoves cancels drops s t := by
  unfold Manager.resumeOther at h
  split at h
  · next nodeId =>
    split at h <;> cases h
    · next deque hjobs =>
      have hset := crew_setTask htask (.jobs (some (nodeId,deque)) .idle)
      have hcrew : (s.proceed task (.jobs (some (nodeId,deque)) .idle)).crew =
          {s.crew.setPost task (some (.worker nodeId deque false,false)) with running := some task} := by
        rw [← show _ = s.crew.setPost task (some (.worker nodeId deque false,false)) from hset]
        rfl
      apply moves_single
      rw [hcrew]
      exact .take _ task nodeId deque hturn (crew_posts htask) hjobs
    · next hnone =>
      apply moves_single
      rw [crew_end htask]
      exact .abandon _ task nodeId false hturn (crew_posts htask) (Or.inr hnone)
  · next key epcs =>
    cases h
    have hpost : s.crew.posts task = some (.refresh,false) := crew_posts htask
    have hset : (s.setTask task (.refresh key epcs true)).crew = s.crew := by
      rw [crew_setTask htask]
      exact setPost_eq_self hpost
    have hcrew : ((s.request (.refreshGet key epcs)).suspend task (.refresh key epcs true)).crew =
        {(s.setTask task (.refresh key epcs true)).crew with running := none} := rfl
    apply moves_of_crew
    rw [hcrew,hset,← hrunning]
    rfl
  · cases h
    exact moves_end rfl htask hturn rfl rfl
  · next key properties refresh reply =>
    split at h <;> cases h
    · exact moves_end rfl htask hturn rfl rfl
    · next result _ =>
      apply (moves_propertiesSet (hfree ⟨_,_,_,rfl⟩) key properties refresh result).trans
      have hset := propertiesSet_task htask key properties refresh result
      refine moves_end rfl hset (Or.inl ?_) rfl rfl
      exact (propertiesSet_running key properties refresh result).trans hrunning
  · cases h

theorem moves_resume {outcome : Outcome} (htask : s.tasks[task]? = some ⟨r,c⟩) (hrunning : s.running = none)
    (hconfig : config.Cancels → cancels) (hcancels : c = true ∨ outcome.cancels = true → cancels)
    (hfree : c = false → (∃ worker activity, r = .jobs worker activity) ∨
      (∃ key properties refresh, r = .setting key properties refresh) → s.stopping = none)
    (h : s.resume config task ⟨r,c⟩ outcome = some t) : CrewMoves cancels drops s t := by
  have hturn : s.crew.Turn task := Or.inl hrunning
  unfold Manager.resume at h
  split at h
  · next worker activity hr =>
    cases hr
    split at h
    · next hcancelled =>
      cases h
      exact moves_interrupt htask hturn (hcancels (Or.inl hcancelled))
    · next hcancelled =>
      have hc := Bool.eq_false_iff.mpr hcancelled
      subst hc
      exact moves_resumeJob htask hturn hconfig (fun he => hcancels (Or.inr he))
        (hfree rfl (Or.inl ⟨_,_,rfl⟩)) h
  · cases h
  · next hjobs hended =>
    split at h
    · next hcancelled =>
      cases h
      cases r with
      | jobs worker activity => exact absurd rfl (hjobs worker activity)
      | ended => exact absurd rfl hended
      | created nodeId =>
        apply moves_single
        rw [crew_end htask]
        exact .abandon _ task nodeId c hturn (crew_posts htask)
          (Or.inl ⟨hcancels (Or.inl hcancelled),hcancelled⟩)
      | consumer => exact moves_end rfl htask hturn rfl rfl
      | refresh => exact moves_end rfl htask hturn rfl rfl
      | setting => exact moves_end rfl htask hturn rfl rfl
    · next hcancelled =>
      have hc := Bool.eq_false_iff.mpr hcancelled
      subst hc
      exact moves_resumeOther htask hturn hrunning (fun hr => hfree rfl (Or.inr hr)) h

/-! ### `async_stop` -/

theorem done_posts (hdone : s.done task = true) : s.crew.posts task = none := by
  unfold Manager.done at hdone
  split at hdone
  · next t htask =>
    obtain ⟨r,c⟩ := t
    rw [crew_posts htask,show r = .ended from of_decide_eq_true hdone]
    rfl
  · next hnone => simp [Manager.crew,hnone]

theorem all_done {awaited : List Nat} (h : awaited.all s.done = true) :
    ∀ task ∈ awaited, s.crew.posts task = none :=
  fun task hmem => done_posts (List.all_eq_true.mp h task hmem)

theorem moves_stopConsumer {awaited : List Nat} (hrunning : s.running = none) (hcancels : cancels)
    (hphase : s.stopping = some (.refreshes awaited)) (hdone : ∀ task ∈ awaited, s.crew.posts task = none) :
    CrewMoves cancels drops s s.stopConsumer := by
  unfold Manager.stopConsumer
  simp only
  split
  · next hconsumer =>
    apply moves_single
    exact .settleUnstarted s.crew awaited hcancels hphase hdone hconsumer
  · next consumer hconsumer =>
    have hcancel := crew_cancelTasks (s := {s with refreshTasks := []}) [consumer]
    have hposts := congrArg Crew.posts hcancel
    have hcount := congrArg Crew.count hcancel
    refine ReflTransGen.single ?_
    convert (Crew.Move.settle _ awaited consumer hcancels hrunning hphase hdone hconsumer :
      Crew.Move cancels drops s.crew _) using 1
    exact Crew.ext hposts hcount rfl rfl rfl rfl rfl rfl rfl rfl rfl rfl rfl rfl rfl rfl

theorem stopConsumer_stopping (s : Manager) (stopping : Option StopPhase) :
    ({s with stopping} : Manager).stopConsumer = s.stopConsumer := by
  unfold Manager.stopConsumer
  cases s.eventConsumerTask <;> rfl

theorem stopRefreshes_stopping (s : Manager) (stopping : Option StopPhase) :
    ({s with stopping} : Manager).stopRefreshes = s.stopRefreshes := by
  let u : Manager := {s with nodeWorkers := ∅, nodeJobs := ∅, deferredFrames := fun _ => []}.cancelTasks s.refreshTasks
  unfold Manager.stopRefreshes
  exact if_congr Iff.rfl (stopConsumer_stopping u stopping) rfl

theorem moves_stopRefreshes {awaited : List Nat} (hrunning : s.running = none) (hcancels : cancels)
    (hphase : s.stopping = some (.workers awaited)) (hdone : ∀ task ∈ awaited, s.crew.posts task = none) :
    CrewMoves cancels drops s s.stopRefreshes := by
  let u : Manager := {s with nodeWorkers := ∅, nodeJobs := ∅, deferredFrames := fun _ => []}.cancelTasks s.refreshTasks
  let v : Manager := {u with stopping := some (.refreshes s.refreshTasks)}
  have hv : CrewMoves cancels drops s v := by
    have hcancel := crew_cancelTasks (s := {s with nodeWorkers := ∅, nodeJobs := ∅,
                                                   deferredFrames := fun _ => []}) s.refreshTasks
    have hposts := congrArg Crew.posts hcancel
    have hcount := congrArg Crew.count hcancel
    refine ReflTransGen.single ?_
    convert (Crew.Move.clear _ awaited hcancels hrunning hphase hdone :
      Crew.Move cancels drops s.crew _) using 1
    exact Crew.ext hposts hcount rfl rfl rfl rfl rfl rfl rfl rfl rfl rfl rfl rfl rfl rfl
  unfold Manager.stopRefreshes
  simp only
  split
  · next hnone =>
    have hnone : s.refreshTasks = [] := hnone
    have hconsumer : CrewMoves cancels drops v v.stopConsumer :=
      moves_stopConsumer hrunning hcancels rfl (fun task hmem => by rw [hnone] at hmem; cases hmem)
    rw [stopConsumer_stopping u] at hconsumer
    exact hv.trans hconsumer
  · exact hv

theorem mem_workers {nodeId : NodeId} (h : s.crew.nodeWorkers nodeId = some task) :
    task ∈ s.nodeWorkers.entries.map Sigma.snd :=
  List.mem_map.mpr ⟨⟨nodeId,task⟩,AList.mem_lookup_iff.mp h,rfl⟩

theorem moves_stop (hrunning : s.running = none) (hcancels : cancels) (hfree : s.stopping = none) :
    CrewMoves cancels drops s s.stop := by
  let workers := s.nodeWorkers.entries.map Sigma.snd
  let u : Manager := {s with subscribed := false}.cancelTasks workers
  let v : Manager := {u with stopping := some (.workers workers)}
  have hv : CrewMoves cancels drops s v := by
    have hcancel := crew_cancelTasks (s := {s with subscribed := false}) workers
    have hposts := congrArg Crew.posts hcancel
    have hcount := congrArg Crew.count hcancel
    refine ReflTransGen.single ?_
    convert (Crew.Move.halt _ workers hcancels hrunning hfree (fun nodeId task h => mem_workers h) :
      Crew.Move cancels drops s.crew _) using 1
    exact Crew.ext hposts hcount rfl rfl rfl rfl rfl rfl rfl rfl rfl rfl rfl rfl rfl rfl
  unfold Manager.stop
  simp only
  split
  · next hnone =>
    have hrefreshes : CrewMoves cancels drops v v.stopRefreshes :=
      moves_stopRefreshes hrunning hcancels rfl (fun task hmem => by
        rw [show workers = [] from hnone] at hmem
        cases hmem)
    rw [stopRefreshes_stopping u] at hrefreshes
    exact hv.trans hrefreshes
  · exact hv

/-! ### Steps -/

theorem free_of_outside {event : ManagerEvent} (hguard : s.undisturbed config event = true)
    (houtside : s.outside event = true) : s.stopping = none := by
  unfold Manager.undisturbed at hguard
  rw [houtside] at hguard
  simpa using hguard

/-- A job that is not cancelled goes on only while `async_stop` is not suspended. -/
theorem free_of_resumed (hstaffed : s.crew.Staffed) (htask : s.tasks[task]? = some ⟨r,false⟩)
    {outcome : Outcome} (hguard : s.undisturbed config (.resume task outcome) = true)
    (hr : (∃ worker activity, r = .jobs worker activity) ∨
      ∃ key properties refresh, r = .setting key properties refresh) : s.stopping = none := by
  obtain ⟨worker,activity,rfl⟩ | ⟨key,properties,refresh,rfl⟩ := hr
  · cases worker with
    | none => exact free_of_outside hguard (by simp only [Manager.outside,htask])
    | some owner =>
      obtain ⟨nodeId,deque⟩ := owner
      have hfits := hstaffed.fits task _ _ (crew_posts htask)
      cases hphase : s.stopping with
      | none => rfl
      | some phase =>
        exfalso
        by_cases hworkers : ∃ awaited, phase = .workers awaited
        · obtain ⟨awaited,rfl⟩ := hworkers
          cases hfits.halted awaited hphase nofun
        · have hnone := hstaffed.unmanned hphase (fun awaited he => hworkers ⟨awaited,he⟩) nodeId
          cases (hfits.listed nodeId rfl).symm.trans hnone
  · exact free_of_outside hguard (by simp only [Manager.outside,htask])

theorem moves_start (hfree : s.stopping = none) : CrewMoves cancels drops s s.start := by
  unfold Manager.start
  split
  · exact .refl
  · next hconsumer =>
    have hcreate := crew_createTask s .consumer rfl
    have hposts := congrArg Crew.posts hcreate
    have hcount := congrArg Crew.count hcreate
    refine ReflTransGen.single ?_
    convert (Crew.Move.listen _ hfree hconsumer : Crew.Move cancels drops s.crew _) using 1
    exact Crew.ext hposts hcount rfl rfl rfl rfl rfl rfl rfl rfl rfl rfl rfl rfl rfl rfl

theorem moves_stopResumes (hrunning : s.running = none) (hcancels : cancels) (h : s.stopResumes = some t) :
    CrewMoves cancels drops s t := by
  unfold Manager.stopResumes at h
  split at h
  · next awaited hphase =>
    obtain ⟨hdone,he⟩ := Option.ite_none_right_eq_some.mp h
    cases he
    exact moves_stopRefreshes hrunning hcancels hphase (all_done hdone)
  · next awaited hphase =>
    obtain ⟨hdone,he⟩ := Option.ite_none_right_eq_some.mp h
    cases he
    exact moves_stopConsumer hrunning hcancels hphase (all_done hdone)
  · next consumer hphase =>
    obtain ⟨hdone,he⟩ := Option.ite_none_right_eq_some.mp h
    cases he
    exact moves_single (.rest _ consumer hcancels hphase (done_posts hdone))
  · cases h

theorem moves_consume (hguard : s.undisturbed config .consume = true) (hdrops : s.drops .consume = true → drops)
    (h : s.consume config = some t) : CrewMoves cancels drops s t := by
  unfold Manager.consume at h
  split at h
  · next consumer event events _ hqueue =>
    split at h
    · cases h
      have hfree : s.stopping = none ∨ s.hires config event = false := by
        simpa [Manager.undisturbed,Manager.outside,hqueue] using hguard
      let u : Manager := {s with eventQueue := events}
      have hu : CrewMoves cancels drops s u := moves_of_crew rfl
      apply hu.trans
      cases event with
      | instanceList _ instances nodeId =>
        refine moves_enqueueNodeJob (s := u) (hfree.imp id fun hhires => ?_) _
        simpa [Manager.hires] using hhires
      | frame _ frame nodeId eoj =>
        refine moves_processFrameEvent (s := u) ?_ fun hfull => hdrops ?_
        · refine hfree.imp id fun hhires => ?_
          by_cases hmem : nodeId ∈ s.nodeWorkers
          · exact Or.inl hmem
          · refine Or.inr (or_iff_not_imp_left.mpr fun hesv node hnode => ?_)
            have hnode : s.data (nodeId,eoj) = some node := hnode
            simpa [Manager.hires,hmem,not_not.mp hesv,hnode] using hhires
        · simp only [Manager.drops,hqueue]
          exact hfull
    · cases h
  · cases h

theorem moves_perform {event : ManagerEvent} (hstaffed : s.crew.Staffed) (hrunning : s.running = none)
    (hguard : s.undisturbed config event = true) (hcancels : s.cancels event = true → cancels)
    (hconfig : config.Cancels → cancels) (hdrops : s.drops event = true → drops)
    (h : s.perform config event = some t) : CrewMoves cancels drops s t := by
  cases event with
  | start =>
    cases h
    exact moves_start (free_of_outside hguard rfl)
  | stop =>
    obtain ⟨hfree,he⟩ := Option.ite_none_right_eq_some.mp h
    cases he
    exact moves_stop hrunning (hcancels rfl) hfree
  | stopResumes => exact moves_stopResumes hrunning (hcancels rfl) h
  | received event =>
    cases h
    split <;> exact moves_of_crew rfl
  | consume => exact moves_consume hguard hdrops h
  | advance => cases h
  | resume task outcome =>
    obtain ⟨⟨r,c⟩,htask,h⟩ := Option.bind_eq_some_iff.mp h
    refine moves_resume htask hrunning hconfig (fun hc => hcancels ?_) (fun hc hr => ?_) h
    · simp only [Manager.cancels,htask]
      exact (Bool.or_eq_true _ _).mpr hc
    · subst hc
      exact free_of_resumed hstaffed htask hguard hr
  | cancel task =>
    obtain ⟨hawaits,he⟩ := Option.ite_none_right_eq_some.mp h
    cases he
    apply moves_single
    rw [crew_cancelTasks]
    refine .cancel _ [task] (hcancels rfl) hrunning fun other hmem nodeId c hpost => ?_
    cases List.mem_singleton.mp hmem
    obtain ⟨⟨r,c'⟩,htask,hpost⟩ := Option.bind_eq_some_iff.mp hpost
    obtain ⟨post,hr,he⟩ := Option.map_eq_some_iff.mp hpost
    cases he
    have hr : r = .created nodeId := routine_of_created hr
    subst hr
    simp only [Manager.awaits,htask] at hawaits
    cases hawaits
  | processFrame key frame =>
    cases h
    exact moves_processFrameEvent (Or.inl (free_of_outside hguard rfl)) hdrops
  | processInstanceList nodeId instances =>
    cases h
    have hcreate := crew_createTask s (.jobs none (.listing nodeId instances)) rfl
    have hcall : CrewMoves cancels drops s (s.createTask (.jobs none (.listing nodeId instances))) := by
      apply moves_single
      rw [hcreate]
      exact .call _
    refine hcall.trans (moves_single (.turn _ s.tasks.length .outside _ (Or.inl hrunning) ?_ (Or.inl rfl)))
    rw [hcreate]
    exact Function.update_self ..
  | setProperties key properties refresh =>
    cases h
    apply moves_single
    have hcreate : ((s.createTask (.setting key properties refresh)).request
        (.setProperties key properties)).crew = s.crew.create .outside :=
      crew_createTask s (.setting key properties refresh) rfl
    rw [hcreate]
    exact .call _
  | discardRefresh task =>
    obtain ⟨hdone,he⟩ := Option.ite_none_right_eq_some.mp h
    cases he
    exact moves_single (.discard _ task (done_posts hdone))
  | identify key attempt =>
    cases h
    rcases readManufacturerCode_cases s key attempt with ⟨exn,hread⟩ | ⟨edt,_,hread⟩
    · rw [hread]
      exact .refl
    · rw [hread]
      exact moves_of_crew rfl
  | forget key =>
    cases h
    exact moves_of_crew rfl

/-- Every step is a sequence of moves of the job tasks. -/
theorem moves_crew {event : ManagerEvent} (hstaffed : s.crew.Staffed)
    (hguard : s.undisturbed config event = true) (hcancels : s.cancels event = true → cancels)
    (hconfig : config.Cancels → cancels) (hdrops : s.drops event = true → drops)
    (h : s.step config event = some t) : CrewMoves cancels drops s t := by
  unfold Manager.step at h
  split at h
  · next task hrunning =>
    split at h
    · next worker activity c htask =>
      obtain ⟨post,hpost⟩ := hstaffed.running task hrunning
      rw [crew_posts htask] at hpost
      obtain ⟨post',_,he⟩ := Option.map_eq_some_iff.mp hpost
      cases he
      exact moves_advance htask hrunning h
    · cases h
  · cases h
  · next hrunning => exact moves_perform hstaffed hrunning hguard hcancels hconfig hdrops h

/-! ### Runs -/

/-- What the moves keep holds in every state of a run whose steps are such moves. -/
theorem crew_invariant (inv : Crew → Prop) {guard : Manager → ManagerEvent → Prop} (hinit : inv {})
    (hstaffed : ∀ d, inv d → d.Staffed) (hmove : ∀ d d', inv d → Crew.Move cancels drops d d' → inv d')
    (hconfig : config.Cancels → cancels)
    (hguard : ∀ s event, inv s.crew → guard s event → s.undisturbed config event = true ∧
      (s.cancels event = true → cancels) ∧ (s.drops event = true → drops))
    (h : Transition.Reaches (Manager.step config) guard {} s) : inv s.crew := by
  induction h with
  | refl => exact hinit
  | tail _ hg hstep ih =>
    obtain ⟨hundisturbed,hcancels,hdrops⟩ := hguard _ _ ih hg
    have hmoves := moves_crew (hstaffed _ ih) hundisturbed hcancels hconfig hdrops hstep
    exact Simulation.preserved inv hmove hmoves ih

theorem staffed_reaches
    (h : Transition.Reaches (Manager.step config) (fun s event => s.undisturbed config event = true) {} s) :
    s.crew.Staffed :=
  crew_invariant Crew.Staffed Crew.staffed_init (fun _ hd => hd)
    (fun _ _ hd (hmove : Crew.Move True True _ _) => hd.move hmove) (fun _ => trivial)
    (fun _ _ _ hguard => ⟨hguard,fun _ => trivial,fun _ => trivial⟩) h

end Pyhems.Device

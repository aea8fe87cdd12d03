import Pyhems.Device.Life

/-! Every step of a manager moves the life of every device object: the manager refines the lives
taken one by one. -/
namespace Pyhems.Device
open Protocol Library Pyhems.Runtime Relation
open Get (Epc)

/-- How far the routine is with setting the object up. -/
def Routine.setupOf (key : DeviceKey) : Routine → Option SetupStage
  | .jobs _ (.setup key' stage _) => if key' = key then some stage else none
  | _ => none

/-- The SetC of a range recovery of the object. -/
def ManagerRequest.recoveryOf (key : DeviceKey) : ManagerRequest → Option (List Property)
  | .recovery key' properties => if key' = key then some properties else none
  | _ => none

def entriesOf {α : Type} (key : DeviceKey) (log : List (DeviceKey × α)) : List α :=
  log.filterMap fun entry => if entry.1 = key then some entry.2 else none

/-- The life of the object as the manager has it. -/
def Manager.life (s : Manager) (key : DeviceKey) : Life where
  node := s.data key
  setups task := s.tasks[task]?.bind fun t => t.routine.setupOf key
  pending := decide (key ∈ s.pendingSetups)
  announced := s.emitted.count (.deviceAdded key)
  identified := entriesOf key s.identified
  remembered := s.manufacturerCodes key
  reads := entriesOf key s.setupReads
  recoveries := s.requests.filterMap fun request => request.recoveryOf key
  infAnswers := entriesOf key s.infAnswers

/-- What is awaited ends in an exception that the caller sees. -/
def Outcome.raises : Outcome → Bool
  | .reply answer => Reply.raises answer
  | _ => false

/-- The job is past the registration of the object that it sets up. -/
def Activity.isRegistered : Activity → Bool
  | .setup _ stage _ => stage.isRegistered
  | _ => false

/-- A setup past its registration is broken off: its task is resumed cancelled, or with an exception. -/
def Manager.breaks (s : Manager) : ManagerEvent → Bool
  | .resume task outcome =>
    match s.tasks[task]? with
    | some ⟨.jobs _ activity,cancelRequested⟩ =>
      activity.isRegistered && (cancelRequested || outcome.raises)
    | _ => false
  | _ => false

/-- The object whose ranges the job looks at next. -/
def Activity.recovers : Activity → Option DeviceKey
  | .setup key .registered _ => some key
  | .recovering key none => some key
  | _ => none

/-- The running task looks at the ranges of the object. -/
def Manager.Recovers (s : Manager) (event : ManagerEvent) (key : DeviceKey) : Prop :=
  event = .advance ∧ ∃ task worker activity c, s.running = some task ∧
    s.tasks[task]? = some ⟨.jobs worker activity,c⟩ ∧ activity.recovers = some key

/-- The life of every object moves, or stays as it is. -/
def Evolves (config : Config) (permits : Permits) (s t : Manager) : Prop :=
  ∀ key, ReflTransGen (Life.Move config key permits) (s.life key) (t.life key)

variable {config : Config} {permits : Permits} {s t u : Manager} {key key' : DeviceKey}
  {task : Nat} {worker : Option (NodeId × Nat)} {remaining : List EOJ} {c : Bool}

theorem Evolves.refl : Evolves config permits s s := fun _ => .refl

theorem Evolves.trans (hst : Evolves config permits s t) (htu : Evolves config permits t u) :
    Evolves config permits s u := fun key => (hst key).trans (htu key)

theorem evolves_of_same (h : ∀ key, t.life key = s.life key) : Evolves config permits s t :=
  fun key => h key ▸ .refl

/-- Only the life of one object changes. -/
theorem evolves_of_one (key : DeviceKey) {d : Life} (hself : t.life key = d)
    (hother : ∀ key', key' ≠ key → t.life key' = s.life key')
    (hmove : ReflTransGen (Life.Move config key permits) (s.life key) d) :
    Evolves config permits s t := by
  intro key'
  by_cases hkey : key' = key
  · rw [hkey,hself]
    exact hmove
  · rw [hother key' hkey]

/-! ### What single operations change -/

theorem entriesOf_concat {α : Type} (log : List (DeviceKey × α)) (value : α) :
    entriesOf key (log ++ [(key,value)]) = entriesOf key log ++ [value] := by
  simp [entriesOf]

theorem entriesOf_other {α : Type} (h : key' ≠ key) (log : List (DeviceKey × α)) (value : α) :
    entriesOf key' (log ++ [(key,value)]) = entriesOf key' log := by
  simp [entriesOf,Ne.symm h]

theorem setupOf_self (worker : Option (NodeId × Nat)) (stage : SetupStage) (remaining : List EOJ) :
    (Routine.jobs worker (.setup key stage remaining)).setupOf key = some stage := if_pos rfl

theorem setupOf_other (h : key' ≠ key) (worker : Option (NodeId × Nat)) (stage : SetupStage)
    (remaining : List EOJ) :
    (Routine.jobs worker (.setup key stage remaining)).setupOf key' = none := if_neg (Ne.symm h)

theorem life_setups {r : Routine} (htask : s.tasks[task]? = some ⟨r,c⟩) :
    (s.life key).setups task = r.setupOf key := by
  simp [Manager.life,htask]

theorem life_setTask {r : Routine} (htask : s.tasks[task]? = some ⟨r,c⟩) (routine : Routine) (key : DeviceKey) :
    (s.setTask task routine).life key = (s.life key).setStage task (routine.setupOf key) := by
  obtain ⟨hlt,_⟩ := List.getElem?_eq_some_iff.mp htask
  have hsetups : ((s.setTask task routine).life key).setups =
      Function.update (s.life key).setups task (routine.setupOf key) := by
    funext other
    by_cases hother : other = task
    · subst hother
      simp [Manager.life,Manager.setTask,hlt]
    · simp [Manager.life,Manager.setTask,Ne.symm hother,hother]
  exact Life.ext rfl hsetups rfl rfl rfl rfl rfl rfl rfl

/-- The routine of a task changes, but not how far it is with the object. -/
theorem life_setTask_same {r : Routine} (htask : s.tasks[task]? = some ⟨r,c⟩) {routine : Routine}
    (h : routine.setupOf key = r.setupOf key) : (s.setTask task routine).life key = s.life key := by
  rw [life_setTask htask,h,← life_setups htask,Life.setStage,Function.update_eq_self]

theorem life_createTask (s : Manager) (routine : Routine) (h : routine.setupOf key = none) :
    (s.createTask routine).life key = s.life key := by
  have hsetups : ((s.createTask routine).life key).setups = (s.life key).setups := by
    funext other
    simp only [Manager.life,Manager.createTask,List.getElem?_append]
    split
    · rfl
    · next hlt =>
      rw [List.getElem?_eq_none (Nat.not_lt.mp hlt)]
      rcases Nat.eq_zero_or_pos (other-s.tasks.length) with hzero | hpos
      · simp [hzero,h]
      · rw [List.getElem?_eq_none hpos]
  exact Life.ext rfl hsetups rfl rfl rfl rfl rfl rfl rfl

theorem life_cancelTasks (cancelled : List Nat) : (s.cancelTasks cancelled).life key = s.life key := by
  have hsetups : ((s.cancelTasks cancelled).life key).setups = (s.life key).setups := by
    funext other
    simp only [Manager.life,Manager.cancelTasks,List.getElem?_mapIdx]
    cases s.tasks[other]? <;> rfl
  exact Life.ext rfl hsetups rfl rfl rfl rfl rfl rfl rfl

theorem life_request {request : ManagerRequest} (h : request.recoveryOf key = none) :
    (s.request request).life key = s.life key := by
  refine Life.ext rfl rfl rfl rfl rfl rfl rfl ?_ rfl
  simp [Manager.life,Manager.request,h]

theorem life_putNode_other (h : key' ≠ key) (node : NodeState) :
    (s.putNode key node).life key' = s.life key' :=
  Life.ext (Function.update_of_ne h ..) rfl rfl rfl rfl rfl rfl rfl rfl

theorem life_putNode (node : NodeState) :
    (s.putNode key node).life key = {s.life key with node := some node} :=
  Life.ext (Function.update_self ..) rfl rfl rfl rfl rfl rfl rfl rfl

theorem life_emit {event : DeviceEvent} (h : event ≠ .deviceAdded key) :
    (s.emit event).life key = s.life key := by
  refine Life.ext rfl rfl rfl ?_ rfl rfl rfl rfl rfl
  simp [Manager.life,Manager.emit,List.count_append,h]

theorem life_notify (epcs : Finset Epc) : (s.notifyPropertiesChanged key epcs).life key' = s.life key' := by
  unfold Manager.notifyPropertiesChanged
  split
  · rfl
  · exact life_emit nofun

theorem life_appendJob (nodeId : NodeId) (job : Job) : (s.appendJob nodeId job).life key = s.life key := by
  unfold Manager.appendJob
  simp only
  split <;> rfl

theorem life_enqueueNodeJob (nodeId : NodeId) (job : Job) :
    (s.enqueueNodeJob nodeId job).life key = s.life key := by
  unfold Manager.enqueueNodeJob
  simp only
  split
  · exact life_appendJob nodeId job
  · exact (life_createTask (s.appendJob nodeId job) _ rfl).trans (life_appendJob nodeId job)

/-! ### Frames -/

theorem evolves_write {node : NodeState} (hnode : s.data key = some node) (properties : Values) :
    Evolves config permits s (s.putNode key {node with properties}) :=
  evolves_of_one _ (life_putNode _) (fun _ h => life_putNode_other h _)
    (.single (.write _ node properties hnode))

theorem evolves_notify (epcs : Finset Epc) :
    Evolves config permits s (s.notifyPropertiesChanged key epcs) :=
  evolves_of_same fun _ => life_notify epcs

theorem evolves_checkRanges (key : DeviceKey) (node : NodeState) :
    Evolves config permits s (s.checkRanges config key node) := by
  unfold Manager.checkRanges
  split
  · exact .refl
  · exact evolves_of_same fun _ => life_enqueueNodeJob _ _

theorem evolves_applyFrame {node : NodeState} (hnode : s.data key = some node) (frame : Frame) :
    Evolves config permits s (s.applyFrame config key node frame) := by
  unfold Manager.applyFrame
  split
  · exact .refl
  · exact (evolves_write hnode _).trans ((evolves_checkRanges _ _).trans (evolves_notify _))

theorem evolves_applyFrames (frames : List Frame) :
    Evolves config permits s (s.applyFrames config key frames) := by
  unfold Manager.applyFrames
  induction frames generalizing s with
  | nil => exact .refl
  | cons frame frames ih =>
    rw [List.foldl_cons]
    refine .trans ?_ ih
    split
    · next node hnode => exact evolves_applyFrame hnode frame
    · exact .refl

theorem evolves_processFrameEvent (key : DeviceKey) (frame : Frame) :
    Evolves config permits s (s.processFrameEvent config key frame) := by
  unfold Manager.processFrameEvent
  split
  · exact .refl
  · split
    · next node hnode => exact evolves_applyFrame hnode frame
    · refine evolves_of_same fun key' => ?_
      unfold Manager.recordFrame Manager.deferFrame
      split <;> simp only <;> split <;> rfl

theorem evolves_consumeEvent (event : RuntimeEvent) :
    Evolves config permits s (s.consumeEvent config event) := by
  cases event with
  | frame receivedAt frame nodeId eoj => exact evolves_processFrameEvent _ frame
  | instanceList receivedAt instances nodeId => exact evolves_of_same fun _ => life_enqueueNodeJob _ _

/-! ### The ends of jobs and setups -/

theorem evolves_quiet {r : Routine} (htask : s.tasks[task]? = some ⟨r,c⟩) (routine : Routine)
    (h : ∀ key, routine.setupOf key = r.setupOf key) (hrunning : Option Nat) :
    Evolves config permits s {s.setTask task routine with running := hrunning} :=
  evolves_of_same fun _ => life_setTask_same htask (h _)

theorem evolves_finishJob {activity : Activity}
    (htask : s.tasks[task]? = some ⟨.jobs worker activity,c⟩)
    (h : ∀ key, (Routine.jobs worker activity).setupOf key = none) :
    Evolves config permits s (s.finishJob task worker) := by
  refine evolves_of_same fun key => ?_
  unfold Manager.finishJob
  split
  · exact life_setTask_same (s := {s with finished := _}) htask (h key).symm
  · exact life_setTask_same htask (h key).symm

theorem evolves_endWorker {r : Routine} (htask : s.tasks[task]? = some ⟨r,c⟩)
    (h : ∀ key, r.setupOf key = none) (nodeId : NodeId) :
    Evolves config permits s (s.endWorker task nodeId) :=
  evolves_of_same fun key =>
    life_setTask_same (s := {s with nodeJobs := _, nodeWorkers := _, deferredFrames := _}) htask (h key).symm

section Leave
variable {stage : SetupStage}
  (htask : s.tasks[task]? = some ⟨.jobs worker (.setup key stage remaining),c⟩)
include htask

/-- A setup is over: its key leaves the guard set. -/
theorem evolves_leave (hstage : stage.isRegistered = true → permits.breaks) (routine : Routine)
    (hroutine : ∀ key', routine.setupOf key' = none)
    (ht : ∀ key', t.life key' =
      ({s with pendingSetups := s.pendingSetups.erase key}.setTask task routine).life key') :
    Evolves config permits s t := by
  have hset := fun key' => life_setTask (s := {s with pendingSetups := s.pendingSetups.erase key})
    htask routine key'
  refine evolves_of_one key (d := (s.life key).leave task) ?_ (fun key' hkey => ?_) ?_
  · rw [ht,hset,hroutine]
    exact Life.ext rfl rfl (by simp [Manager.life,Life.leave,Life.setStage]) rfl rfl rfl rfl rfl rfl
  · have hpending : ({s with pendingSetups := s.pendingSetups.erase key} : Manager).life key' =
        s.life key' :=
      Life.ext rfl rfl (by simp [Manager.life,hkey]) rfl rfl rfl rfl rfl rfl
    rw [ht,hset,hpending,hroutine,← setupOf_other hkey worker stage remaining,← life_setups htask,
      Life.setStage,Function.update_eq_self]
  · have hsetup : (s.life key).setups task = some stage := by rw [life_setups htask,setupOf_self]
    cases hregistered : stage.isRegistered with
    | false => exact .single (.fail _ task stage hsetup hregistered)
    | true => exact .single (.drop _ task stage hsetup hregistered (hstage hregistered))

theorem evolves_endSetup (hstage : stage.isRegistered = true → permits.breaks) :
    Evolves config permits s (s.endSetup task worker key remaining) :=
  evolves_leave htask hstage _ (fun _ => rfl) fun _ => rfl

end Leave

section Exits
variable {activity : Activity} (htask : s.tasks[task]? = some ⟨.jobs worker activity,c⟩)
  (hbroken : activity.isRegistered = true → permits.breaks)
include htask hbroken

theorem evolves_interrupt : Evolves config permits s (s.interrupt task worker activity) := by
  unfold Manager.interrupt
  cases activity with
  | setup key stage remaining =>
    cases worker with
    | none => exact evolves_leave htask hbroken .ended (fun _ => rfl) fun _ => rfl
    | some owner => exact evolves_leave htask hbroken .ended (fun _ => rfl) fun _ => rfl
  | idle | listing | recovering =>
    cases worker with
    | none => exact evolves_quiet htask .ended (fun _ => rfl) none
    | some owner => exact evolves_endWorker htask (fun _ => rfl) owner.1

theorem evolves_raise (exn : Exn) : Evolves config permits s (s.raise task worker activity exn) := by
  unfold Manager.raise
  split
  · exact evolves_interrupt htask hbroken
  · exact evolves_endSetup htask hbroken
  · next hsetup =>
    refine evolves_finishJob htask fun key => ?_
    cases activity with
    | setup key' stage remaining => exact absurd rfl (hsetup key' stage remaining)
    | idle | listing | recovering => rfl

end Exits

/-! ### Setup -/

theorem evolves_beginSetup {nodeId : NodeId} {instances : List EOJ}
    (htask : s.tasks[task]? = some ⟨.jobs worker (.listing nodeId instances),c⟩)
    (hdata : s.data key = none) (hpending : key ∉ s.pendingSetups) :
    Evolves config permits s (s.beginSetup task worker key remaining) := by
  let u : Manager := {s with pendingSetups := insert key s.pendingSetups}
  have hset := fun key' => life_setTask (s := u.request (.readManufacturerCode key)) htask
    (.jobs worker (.setup key .manufacturerCode remaining)) key'
  have hrequest : ∀ key', (u.request (.readManufacturerCode key)).life key' = u.life key' :=
    fun key' => life_request rfl
  refine evolves_of_one key
    (d := {(s.life key).setStage task (some .manufacturerCode) with pending := true}) ?_
    (fun key' hkey => ?_) (.single (.begin _ task hdata (by simpa [Manager.life] using hpending)))
  · refine (hset key).trans ?_
    rw [hrequest,setupOf_self]
    exact Life.ext rfl rfl (by simp [Manager.life,Life.setStage,u]) rfl rfl rfl rfl rfl rfl
  · refine (hset key').trans ?_
    have hu : u.life key' = s.life key' :=
      Life.ext rfl rfl (by simp [Manager.life,hkey,u]) rfl rfl rfl rfl rfl rfl
    have hidle : (s.life key').setups task = none := life_setups htask
    rw [hrequest,hu,setupOf_other hkey,← hidle,Life.setStage,Function.update_eq_self]

/-- A setup goes on to another stage. -/
theorem evolves_stage {stage stage' : SetupStage}
    (htask : s.tasks[task]? = some ⟨.jobs worker (.setup key stage remaining),c⟩)
    (hmove : Life.Move config key permits (s.life key) ((s.life key).setStage task (some stage')))
    (running : Option Nat) :
    Evolves config permits s
      {s.setTask task (.jobs worker (.setup key stage' remaining)) with running} := by
  have hset := fun key' => life_setTask htask (.jobs worker (.setup key stage' remaining)) key'
  refine evolves_of_one key ?_ (fun key' hkey => ?_) (.single hmove)
  · refine (hset key).trans ?_
    rw [setupOf_self]
  · refine (hset key').trans ?_
    rw [setupOf_other hkey,← setupOf_other hkey worker stage remaining,← life_setups htask,
      Life.setStage,Function.update_eq_self]

theorem evolves_requestProperties
    (htask : s.tasks[task]? = some ⟨.jobs worker (.setup key .manufacturerCode remaining),c⟩)
    {code : Nat} (hcode : s.manufacturerCodes key = some code) :
    Evolves config permits s (s.requestProperties config task worker key remaining code) := by
  unfold Manager.requestProperties
  split
  · exact evolves_raise htask nofun _
  · next initial hinitial =>
    let request := ManagerRequest.setupGet key
      (baseEpcs ++ sorted ((initial \ baseEpcs.toFinset) \ {Get.manufacturerCodeEpc}))
    have hrequest : Evolves config permits s (s.request request) :=
      evolves_of_same fun _ => life_request rfl
    have hlife : (s.request request).life key = s.life key := life_request rfl
    refine hrequest.trans (evolves_stage (s := s.request request) htask ?_ none)
    rw [hlife]
    exact .select _ task code initial ((life_setups htask).trans (setupOf_self ..)) hcode

theorem readManufacturerCode_cases (s : Manager) (key : DeviceKey) (attempt : Get.Attempt) :
    (∃ exn, s.readManufacturerCode key attempt = (.error exn,s)) ∨
      ∃ edt : Bytes, 3 ≤ edt.length ∧ s.readManufacturerCode key attempt =
        (.ok (fromBytes (edt.take 3)),
          {s with
            manufacturerCodes := Function.update s.manufacturerCodes key (some (fromBytes (edt.take 3))),
            identified := s.identified ++ [(key,edt)]}) := by
  unfold Manager.readManufacturerCode
  split
  · exact Or.inl ⟨_,rfl⟩
  · exact Or.inl ⟨_,rfl⟩
  · next prop _ hread =>
    refine Or.inr ⟨prop.edt,?_,rfl⟩
    have hproperty : attempt.manufacturerProperty = some prop := by
      unfold Get.readManufacturerCode at hread
      split at hread
      · cases hread
      · split at hread
        · cases hread
        · next found hfound =>
          cases hread
          exact hfound
    have hfound := List.find?_some hproperty
    simp only [Bool.and_eq_true,decide_eq_true_eq] at hfound
    exact hfound.2

theorem evolves_readManufacturerCode (key : DeviceKey) (attempt : Get.Attempt) :
    Evolves config permits s (s.readManufacturerCode key attempt).2 := by
  rcases readManufacturerCode_cases s key attempt with ⟨exn,h⟩ | ⟨edt,hedt,h⟩ <;> rw [h]
  · exact .refl
  · refine evolves_of_one key ?_ (fun key' hkey => ?_) (.single (.learn _ edt hedt))
    · exact Life.ext rfl rfl rfl rfl (entriesOf_concat ..) (Function.update_self ..) rfl rfl rfl
    · exact Life.ext rfl rfl rfl rfl (entriesOf_other hkey ..) (Function.update_of_ne hkey ..) rfl rfl rfl

theorem evolves_setupIdentified
    (htask : s.tasks[task]? = some ⟨.jobs worker (.setup key .manufacturerCode remaining),c⟩)
    {answer : Option Get.Attempt}
    (h : s.setupIdentified config task worker key remaining answer = some t) :
    Evolves config permits s t := by
  cases answer with
  | none =>
    obtain ⟨code,hcode,rfl⟩ := Option.map_eq_some_iff.mp h
    exact evolves_requestProperties htask hcode
  | some attempt =>
    have hread : Evolves config permits s (s.readManufacturerCode key attempt).2 :=
      evolves_readManufacturerCode key attempt
    rcases readManufacturerCode_cases s key attempt with ⟨exn,hresult⟩ | ⟨edt,_,hresult⟩
    · simp only [Manager.setupIdentified,hresult] at h
      cases h
      exact evolves_raise htask nofun exn
    · simp only [Manager.setupIdentified,hresult] at h
      cases h
      rw [hresult] at hread
      apply hread.trans
      apply evolves_requestProperties
      · exact htask
      · exact Function.update_self ..

theorem evolves_register {code : Nat} {initial : Finset Epc} {props : List Property} {node : NodeState}
    (htask : s.tasks[task]? = some ⟨.jobs worker (.setup key (.properties code initial) remaining),c⟩)
    (hread : props ∈ entriesOf key s.setupReads)
    (hnode : setupNode config key code initial props = .ok (some node)) :
    Evolves config permits s (s.register config task worker key remaining node) := by
  let u : Manager := {s.putNode key node with deferredFrames := Function.update s.deferredFrames key []}
  have hstage : (s.life key).setups task = some (.properties code initial) :=
    (life_setups htask).trans (setupOf_self ..)
  have hset := fun key' => life_setTask (s := u) htask
    (.jobs worker (.setup key .registered remaining)) key'
  refine Evolves.trans ?_ (evolves_applyFrames (s.deferredFrames key))
  refine evolves_of_one key ?_ (fun key' hkey => ?_)
    (.single (.register _ task code initial props node hstage hread hnode))
  · refine (hset key).trans ?_
    rw [setupOf_self]
    exact congrArg (fun d : Life => d.setStage task (some .registered)) (life_putNode node)
  · refine (hset key').trans ?_
    have hu : u.life key' = s.life key' := life_putNode_other hkey node
    rw [hu,setupOf_other hkey,← setupOf_other hkey worker (.properties code initial) remaining,
      ← life_setups htask,Life.setStage,Function.update_eq_self]

theorem evolves_setupRead {code : Nat} {initial : Finset Epc}
    (htask : s.tasks[task]? = some ⟨.jobs worker (.setup key (.properties code initial) remaining),c⟩)
    (props : List Property) :
    Evolves config permits s (s.setupRead config task worker key remaining code initial props) := by
  let u : Manager := {s with setupReads := s.setupReads ++ [(key,props)]}
  have hread : Evolves config permits s u := by
    refine evolves_of_one key ?_ (fun key' hkey => ?_) (.single (.read _ props))
    · exact Life.ext rfl rfl rfl rfl rfl rfl (entriesOf_concat ..) rfl rfl
    · exact Life.ext rfl rfl rfl rfl rfl rfl (entriesOf_other hkey ..) rfl rfl
  have hmem : props ∈ entriesOf key u.setupReads := by
    rw [entriesOf_concat]
    exact List.mem_concat_self
  have hu : u.tasks[task]? = some ⟨.jobs worker (.setup key (.properties code initial) remaining),c⟩ :=
    htask
  apply hread.trans
  unfold Manager.setupRead
  split
  · exact evolves_raise hu nofun _
  · exact evolves_endSetup hu nofun
  · next node hnode => exact evolves_register hu hmem hnode

/-! ### Recovery and announcement -/

theorem evolves_beginRecovery (key : DeviceKey) (hrecovers : permits.recovers key) :
    Evolves config permits s (s.beginRecovery config key).1 := by
  unfold Manager.beginRecovery
  split
  · exact .refl
  · next node hnode =>
    simp only
    split
    · exact .refl
    · let properties := collectionRangeRecoveryProperties (config.bindings.get key.2.classCode) node
      refine evolves_of_one key ?_ (fun key' hkey => ?_)
        (.single (.recover _ node properties hnode rfl hrecovers))
      · refine Life.ext (Function.update_self ..) rfl rfl rfl rfl rfl rfl ?_ rfl
        simp [Manager.life,Manager.request,Manager.putNode,ManagerRequest.recoveryOf,properties]
      · have hrequest : (ManagerRequest.recovery key properties).recoveryOf key' = none :=
          if_neg (Ne.symm hkey)
        exact (life_request hrequest).trans (life_putNode_other hkey _)

theorem beginRecovery_tasks (config : Config) (s : Manager) (key : DeviceKey) :
    (s.beginRecovery config key).1.tasks = s.tasks := by
  unfold Manager.beginRecovery
  split
  · rfl
  · simp only
    split <;> rfl

theorem evolves_proceed {stage stage' : SetupStage}
    (htask : s.tasks[task]? = some ⟨.jobs worker (.setup key stage remaining),c⟩)
    (hstage : stage.isRegistered = true) (hstage' : stage'.isRegistered = true) (running : Option Nat) :
    Evolves config permits s
      {s.setTask task (.jobs worker (.setup key stage' remaining)) with running} :=
  evolves_stage htask
    (.proceed _ task stage stage' ((life_setups htask).trans (setupOf_self ..)) hstage hstage') running

theorem evolves_setupRecovery
    (htask : s.tasks[task]? = some ⟨.jobs worker (.setup key .registered remaining),c⟩)
    (hrecovers : permits.recovers key) :
    Evolves config permits s (s.setupRecovery config task worker key remaining) := by
  have hbegin : Evolves config permits s (s.beginRecovery config key).1 := evolves_beginRecovery key hrecovers
  have htasks := beginRecovery_tasks config s key
  rw [← htasks] at htask
  apply hbegin.trans
  unfold Manager.setupRecovery
  split
  · next u hu =>
    rw [hu] at htask ⊢
    exact evolves_proceed htask rfl rfl (some task)
  · next u written _ hu =>
    rw [hu] at htask ⊢
    exact evolves_proceed htask rfl rfl none

theorem evolves_jobRecovery
    (htask : s.tasks[task]? = some ⟨.jobs worker (.recovering key none),c⟩)
    (hrecovers : permits.recovers key) :
    Evolves config permits s (s.jobRecovery config task worker key) := by
  have hbegin : Evolves config permits s (s.beginRecovery config key).1 := evolves_beginRecovery key hrecovers
  have htasks := beginRecovery_tasks config s key
  rw [← htasks] at htask
  apply hbegin.trans
  unfold Manager.jobRecovery
  split
  · next u hu =>
    rw [hu] at htask ⊢
    exact evolves_finishJob htask fun _ => rfl
  · next u written _ hu =>
    rw [hu] at htask ⊢
    exact evolves_quiet htask (.jobs worker (.recovering key (some written))) (fun _ => rfl) none

theorem evolves_endRecovery (key : DeviceKey) (written : List Property) (result : SetRequestResult) :
    Evolves config permits s (s.endRecovery key written result).1 := by
  unfold Manager.endRecovery
  split
  · exact .refl
  · next node hnode =>
    split
    · exact evolves_write hnode _
    · exact .refl

theorem endRecovery_tasks (key : DeviceKey) (written : List Property) (result : SetRequestResult) :
    (s.endRecovery key written result).1.tasks = s.tasks := by
  unfold Manager.endRecovery
  split
  · rfl
  · split <;> rfl

theorem evolves_setupRecovered {written : List Property} {reply : Reply}
    (htask : s.tasks[task]? = some ⟨.jobs worker (.setup key (.recovery written) remaining),c⟩)
    (hbroken : reply.raises = true → permits.breaks) :
    Evolves config permits s (s.setupRecovered task worker key remaining written reply) := by
  unfold Manager.setupRecovered
  split
  · next exn hexn => exact evolves_raise htask (fun _ => hbroken (setProperties_raises hexn)) exn
  · next result _ =>
    apply (evolves_endRecovery key written result).trans
    rw [← endRecovery_tasks key written result] at htask
    exact evolves_proceed htask rfl rfl (some task)

theorem notify_tasks (key : DeviceKey) (epcs : Finset Epc) :
    (s.notifyPropertiesChanged key epcs).tasks = s.tasks := by
  unfold Manager.notifyPropertiesChanged
  split <;> rfl

theorem evolves_jobRecovered {written : List Property}
    (htask : s.tasks[task]? = some ⟨.jobs worker (.recovering key (some written)),c⟩) (reply : Reply) :
    Evolves config permits s (s.jobRecovered task worker key written reply) := by
  unfold Manager.jobRecovered
  split
  · exact evolves_raise htask nofun _
  · next result _ =>
    rw [← endRecovery_tasks key written result] at htask
    apply (evolves_endRecovery key written result).trans
    apply (evolves_notify (s.endRecovery key written result).2).trans
    rw [← notify_tasks key] at htask
    exact evolves_finishJob htask fun _ => rfl

/-- A setup that ends well. -/
theorem evolves_announce {stage : SetupStage} {d : Life}
    (htask : s.tasks[task]? = some ⟨.jobs worker (.setup key stage remaining),c⟩)
    (hother : ∀ key', key' ≠ key → u.life key' = s.life key') (htasks : u.tasks = s.tasks)
    (hmove : Life.Move config key permits (s.life key) d)
    (hd : d = {(u.life key).leave task with announced := (u.life key).announced+1}) :
    Evolves config permits s (u.announce task worker key remaining) := by
  rw [← htasks] at htask
  let v : Manager := {u.emit (.deviceAdded key) with pendingSetups := u.pendingSetups.erase key}
  have hset := fun key' => life_setTask (s := v) htask (.jobs worker (.listing key.1 remaining)) key'
  refine evolves_of_one key ?_ (fun key' hkey => ?_) (.single hmove)
  · rw [hd]
    refine (hset key).trans ?_
    refine Life.ext rfl rfl ?_ ?_ rfl rfl rfl rfl rfl
    · simp [Manager.life,Life.leave,Life.setStage,v]
    · simp [Manager.life,Manager.emit,Life.setStage,v]
  · refine (hset key').trans ?_
    have hv : v.life key' = u.life key' := by
      refine Life.ext rfl rfl ?_ ?_ rfl rfl rfl rfl rfl
      · simp [Manager.life,hkey,v]
      · simp [Manager.life,Manager.emit,Ne.symm hkey,v]
    have hlisting : (Routine.jobs worker (.listing key.1 remaining)).setupOf key' =
        (u.life key').setups task := by
      rw [life_setups htask,setupOf_other hkey]
      rfl
    rw [hv,hlisting,Life.setStage,Function.update_eq_self,hother key' hkey]

theorem evolves_sendInitialNotification
    (htask : s.tasks[task]? = some ⟨.jobs worker (.setup key .recovered remaining),c⟩)
    (h : s.sendInitialNotification task worker key remaining = some t) : Evolves config permits s t := by
  obtain ⟨node,hnode,ht⟩ := Option.map_eq_some_iff.mp h
  have hstage : (s.life key).setups task = some .recovered := (life_setups htask).trans (setupOf_self ..)
  split at ht
  · next hinf =>
    cases ht
    exact evolves_announce htask (fun _ _ => rfl) rfl
      (.announce _ task .recovered node hstage rfl hnode hinf) rfl
  · cases ht
    have hrequest : Evolves config permits s (s.request (.infRequest key (sorted node.infRequestEpcs))) :=
      evolves_of_same fun _ => life_request rfl
    apply hrequest.trans
    exact evolves_proceed (s := s.request _) htask rfl rfl none

theorem evolves_setupNotified {reply : Reply}
    (htask : s.tasks[task]? = some ⟨.jobs worker (.setup key .notification remaining),c⟩)
    (hbroken : reply.raises = true → permits.breaks)
    (h : s.setupNotified task worker key remaining reply = some t) : Evolves config permits s t := by
  obtain ⟨node,hnode,ht⟩ := Option.map_eq_some_iff.mp h
  have hstage : (s.life key).setups task = some .notification :=
    (life_setups htask).trans (setupOf_self ..)
  split at ht
  · next exn hexn =>
    cases ht
    exact evolves_raise htask (fun _ => hbroken (requestNotifications_raises hexn)) exn
  · next result hresult =>
    cases ht
    let answers := (reply.frame.map fun frame => (key,frame)).toList
    have hlog : ∀ key', entriesOf key' answers = if key' = key then reply.frame.toList else [] := by
      intro key'
      unfold entriesOf answers
      cases reply.frame with
      | none => simp
      | some frame =>
        rcases eq_or_ne key' key with rfl | hkey
        · simp
        · simp [hkey,Ne.symm hkey]
    have hanswers : ∀ key', entriesOf key' (s.infAnswers ++ answers) =
        entriesOf key' s.infAnswers ++ entriesOf key' answers := fun key' => List.filterMap_append ..
    refine evolves_announce htask (fun key' hkey => ?_) rfl
      (.notified _ task .notification node reply result hstage rfl hnode hresult) ?_
    · refine Life.ext (Function.update_of_ne hkey ..) rfl rfl rfl rfl rfl rfl rfl ?_
      refine (hanswers key').trans ?_
      rw [hlog,if_neg hkey,List.append_nil]
      rfl
    · have hnotified : some (node.notified result) =
          Function.update s.data key (some (node.notified result)) key := by rw [Function.update_self]
      refine Life.ext hnotified rfl rfl rfl rfl rfl rfl rfl ?_
      refine Eq.symm ((hanswers key).trans ?_)
      rw [hlog,if_pos rfl]
      rfl

/-! ### Steps -/

theorem evolves_advance {activity : Activity} (htask : s.tasks[task]? = some ⟨.jobs worker activity,c⟩)
    (hrecovers : ∀ key, activity.recovers = some key → permits.recovers key)
    (h : s.advance config task worker activity = some t) : Evolves config permits s t := by
  unfold Manager.advance at h
  split at h
  · split at h
    · cases h
      exact evolves_quiet htask .ended (fun _ => rfl) none
    · split at h
      · cases h
        exact evolves_endWorker htask (fun _ => rfl) _
      · next nodeId deque _ job jobs _ =>
        cases h
        refine evolves_of_same fun key => ?_
        cases job <;> exact life_setTask_same (s := {s with deques := _, started := _}) htask rfl
  · cases h
    exact evolves_finishJob htask fun _ => rfl
  · next nodeId eoj remaining =>
    split at h
    · cases h
      exact evolves_quiet htask (.jobs worker (.listing nodeId remaining)) (fun _ => rfl) (some task)
    · next hnew =>
      cases h
      rw [not_or] at hnew
      exact evolves_beginSetup htask (by simpa using hnew.1) hnew.2
  · cases h
    exact evolves_setupRecovery htask (hrecovers _ rfl)
  · exact evolves_sendInitialNotification htask h
  · cases h
    exact evolves_jobRecovery htask (hrecovers _ rfl)
  · cases h

theorem evolves_resumeJob {activity : Activity} {outcome : Outcome}
    (htask : s.tasks[task]? = some ⟨.jobs worker activity,c⟩)
    (hbroken : activity.isRegistered = true → outcome.raises = true → permits.breaks)
    (h : s.resumeJob config task worker activity outcome = some t) : Evolves config permits s t := by
  unfold Manager.resumeJob at h
  split at h
  · exact evolves_setupIdentified htask h
  · cases h
    exact evolves_setupRead htask _
  · cases h
    exact evolves_raise htask nofun _
  · cases h
    exact evolves_setupRecovered htask (hbroken rfl)
  · exact evolves_setupNotified htask (hbroken rfl) h
  · cases h
    exact evolves_jobRecovered htask _
  · cases h

theorem evolves_scheduleRefresh (key : DeviceKey) (node : NodeState) (epcs : Finset Epc) :
    Evolves config permits s (s.scheduleRefresh key node epcs) := by
  unfold Manager.scheduleRefresh
  simp only
  split
  · exact .refl
  · exact evolves_of_same fun _ => life_createTask s _ rfl

theorem evolves_refreshAccepted (key : DeviceKey) (node : NodeState) (refresh : Bool)
    (epcs : Finset Epc) : Evolves config permits s (s.refreshAccepted key node refresh epcs) := by
  unfold Manager.refreshAccepted
  split
  · exact evolves_scheduleRefresh key node epcs
  · exact .refl

theorem evolves_propertiesSet (key : DeviceKey) (properties : List Property) (refresh : Bool)
    (result : SetRequestResult) :
    Evolves config permits s (s.propertiesSet key properties refresh result) := by
  unfold Manager.propertiesSet
  split
  · exact .refl
  · next node hnode =>
    split
    · exact .refl
    · exact (evolves_write hnode _).trans ((evolves_notify _).trans (evolves_refreshAccepted _ _ _ _))

/-- A new task leaves those before it as they are. -/
theorem createTask_task {r : Routine} (htask : s.tasks[task]? = some ⟨r,c⟩) (routine : Routine) :
    (s.createTask routine).tasks[task]? = some ⟨r,c⟩ := by
  obtain ⟨hlt,_⟩ := List.getElem?_eq_some_iff.mp htask
  exact (List.getElem?_append_left hlt).trans htask

theorem propertiesSet_task {r : Routine} (htask : s.tasks[task]? = some ⟨r,c⟩) (key : DeviceKey)
    (properties : List Property) (refresh : Bool) (result : SetRequestResult) :
    (s.propertiesSet key properties refresh result).tasks[task]? = some ⟨r,c⟩ := by
  unfold Manager.propertiesSet
  split
  · exact htask
  · split
    · exact htask
    · unfold Manager.refreshAccepted Manager.scheduleRefresh
      simp only
      split_ifs
      · rwa [notify_tasks]
      · apply createTask_task
        rwa [notify_tasks]
      · rwa [notify_tasks]

theorem evolves_resumeOther {r : Routine} {outcome : Outcome} (htask : s.tasks[task]? = some ⟨r,c⟩)
    (h : s.resumeOther task r outcome = some t) : Evolves config permits s t := by
  unfold Manager.resumeOther at h
  split at h
  · next nodeId =>
    split at h <;> cases h
    · next deque _ =>
      exact evolves_quiet htask (.jobs (some (nodeId,deque)) .idle) (fun _ => rfl) (some task)
    · exact evolves_quiet htask .ended (fun _ => rfl) none
  · next key epcs =>
    cases h
    have hrequest : Evolves config permits s (s.request (.refreshGet key epcs)) :=
      evolves_of_same fun _ => life_request rfl
    apply hrequest.trans
    exact evolves_quiet (s := s.request _) htask (.refresh key epcs true) (fun _ => rfl) none
  · cases h
    exact evolves_quiet htask .ended (fun _ => rfl) none
  · next key properties refresh reply =>
    split at h <;> cases h
    · exact evolves_quiet htask .ended (fun _ => rfl) none
    · next result _ =>
      apply (evolves_propertiesSet key properties refresh result).trans
      have hset := propertiesSet_task htask key properties refresh result
      exact evolves_quiet hset .ended (fun _ => rfl) none
  · cases h

theorem evolves_resume {r : Routine} {outcome : Outcome} (htask : s.tasks[task]? = some ⟨r,c⟩)
    (hbroken : ∀ worker activity, r = .jobs worker activity → activity.isRegistered = true →
      c = true ∨ outcome.raises = true → permits.breaks)
    (h : s.resume config task ⟨r,c⟩ outcome = some t) : Evolves config permits s t := by
  unfold Manager.resume at h
  split at h
  · next worker activity hr =>
    cases hr
    split at h
    · next hcancelled =>
      cases h
      exact evolves_interrupt htask fun hregistered => hbroken _ _ rfl hregistered (Or.inl hcancelled)
    · exact evolves_resumeJob htask
        (fun hregistered hraises => hbroken _ _ rfl hregistered (Or.inr hraises)) h
  · cases h
  · next hjobs _ =>
    split at h
    · cases h
      refine evolves_quiet htask .ended (fun key => ?_) none
      cases r with
      | jobs worker activity => exact absurd rfl (hjobs worker activity)
      | created | consumer | refresh | setting | ended => rfl
    · exact evolves_resumeOther htask h

theorem evolves_stopConsumer : Evolves config permits s s.stopConsumer := by
  unfold Manager.stopConsumer
  simp only
  split
  · exact evolves_of_same fun _ => rfl
  · exact evolves_of_same fun _ => life_cancelTasks (s := {s with refreshTasks := []}) _

theorem evolves_stopRefreshes : Evolves config permits s s.stopRefreshes := by
  have hcancel : Evolves config permits s
      ({s with nodeWorkers := ∅, nodeJobs := ∅, deferredFrames := fun _ => []}.cancelTasks s.refreshTasks) :=
    evolves_of_same fun _ => life_cancelTasks (s := {s with nodeWorkers := ∅, nodeJobs := ∅,
                                                            deferredFrames := fun _ => []}) _
  unfold Manager.stopRefreshes
  simp only
  split
  · exact hcancel.trans evolves_stopConsumer
  · exact hcancel.trans (evolves_of_same fun _ => rfl)

theorem evolves_stop : Evolves config permits s s.stop := by
  have hcancel : Evolves config permits s
      ({s with subscribed := false}.cancelTasks (s.nodeWorkers.entries.map Sigma.snd)) :=
    evolves_of_same fun _ => life_cancelTasks (s := {s with subscribed := false}) _
  unfold Manager.stop
  simp only
  split
  · exact hcancel.trans evolves_stopRefreshes
  · exact hcancel.trans (evolves_of_same fun _ => rfl)

theorem evolves_perform {event : ManagerEvent} (hbroken : s.breaks event = true → permits.breaks)
    (h : s.perform config event = some t) : Evolves config permits s t := by
  cases event with
  | start =>
    cases h
    unfold Manager.start
    split
    · exact .refl
    · exact evolves_of_same fun _ => life_createTask s .consumer rfl
  | stop =>
    simp only [Manager.perform] at h
    split at h
    · cases h
      exact evolves_stop
    · cases h
  | stopResumes =>
    simp only [Manager.perform,Manager.stopResumes] at h
    split at h
    · split at h <;> cases h
      exact evolves_stopRefreshes
    · split at h <;> cases h
      exact evolves_stopConsumer
    · split at h <;> cases h
      exact evolves_of_same fun _ => rfl
    · cases h
  | received event =>
    cases h
    split <;> exact evolves_of_same fun _ => rfl
  | consume =>
    simp only [Manager.perform,Manager.consume] at h
    split at h
    · next event events _ _ =>
      split at h <;> cases h
      have hqueue : Evolves config permits s {s with eventQueue := events} := evolves_of_same fun _ => rfl
      exact hqueue.trans (evolves_consumeEvent event)
    · cases h
  | advance => cases h
  | resume task outcome =>
    obtain ⟨⟨r,c⟩,htask,hresume⟩ := Option.bind_eq_some_iff.mp h
    refine evolves_resume htask (fun worker activity hr hregistered hends => hbroken ?_) hresume
    simpa [Manager.breaks,htask,hr,hregistered] using hends
  | cancel task =>
    simp only [Manager.perform] at h
    split at h <;> cases h
    exact evolves_of_same fun _ => life_cancelTasks _
  | processFrame key frame =>
    cases h
    exact evolves_processFrameEvent key frame
  | processInstanceList nodeId instances =>
    cases h
    exact evolves_of_same fun _ => life_createTask s (.jobs none (.listing nodeId instances)) rfl
  | setProperties key properties refresh =>
    cases h
    refine evolves_of_same fun _ => (life_request rfl).trans ?_
    exact life_createTask s _ rfl
  | discardRefresh task =>
    simp only [Manager.perform] at h
    split at h <;> cases h
    exact evolves_of_same fun _ => rfl
  | identify key attempt =>
    cases h
    exact evolves_readManufacturerCode key attempt
  | forget key =>
    cases h
    refine evolves_of_one key ?_ (fun key' hkey => ?_) (.single (.forget _))
    · exact Life.ext rfl rfl rfl rfl rfl (Function.update_self ..) rfl rfl rfl
    · exact Life.ext rfl rfl rfl rfl rfl (Function.update_of_ne hkey ..) rfl rfl rfl

/-- The manager refines the lives of its objects. -/
theorem evolves_step {event : ManagerEvent} (h : s.step config event = some t) :
    Evolves config ⟨s.breaks event = true,s.Recovers event⟩ s t := by
  unfold Manager.step at h
  split at h
  · next task hrunning =>
    split at h
    · next worker activity c htask =>
      exact evolves_advance htask (fun key hkey => ⟨rfl,task,worker,activity,c,hrunning,htask,hkey⟩) h
    · cases h
  · cases h
  · exact evolves_perform id h

/-! ### Runs -/

/-- Whatever the step, the life of an object moves. -/
theorem moves_step {event : ManagerEvent} (key : DeviceKey) (h : s.step config event = some t) :
    ReflTransGen (Life.Move config key .all) (s.life key) (t.life key) :=
  (evolves_step h key).lift id fun _ _ hmove => hmove.mono (fun _ => trivial) fun _ => trivial

/-- A step that breaks no setup off. -/
theorem moves_unbroken {event : ManagerEvent} (key : DeviceKey) (hguard : s.breaks event = false)
    (h : s.step config event = some t) :
    ReflTransGen (Life.Move config key .unbroken) (s.life key) (t.life key) := by
  refine (evolves_step h key).lift id fun _ _ hmove => hmove.mono (fun hbreaks => ?_) fun _ => trivial
  rw [hguard] at hbreaks
  cases hbreaks

def Manager.SettingUp (s : Manager) (key : DeviceKey) : Prop :=
  ∃ t ∈ s.tasks, (t.routine.setupOf key).isSome

instance (s : Manager) (key : DeviceKey) : Decidable (s.SettingUp key) :=
  inferInstanceAs (Decidable (∃ t ∈ s.tasks, (t.routine.setupOf key).isSome))

theorem settingUp_iff : s.SettingUp key ↔ ∃ task stage, (s.life key).setups task = some stage := by
  unfold Manager.SettingUp
  constructor
  · rintro ⟨t,ht,hsetup⟩
    obtain ⟨task,htask⟩ := List.mem_iff_getElem?.mp ht
    obtain ⟨stage,hstage⟩ := Option.isSome_iff_exists.mp hsetup
    exact ⟨task,stage,by rw [life_setups htask,hstage]⟩
  · rintro ⟨task,stage,hstage⟩
    obtain ⟨t,htask,hsetup⟩ := Option.bind_eq_some_iff.mp hstage
    exact ⟨t,List.mem_of_getElem? htask,by rw [hsetup]; rfl⟩

/-- No setup of the object is in progress. -/
theorem life_idle (hidle : ¬ s.SettingUp key) (task : Nat) : (s.life key).setups task = none := by
  by_contra hsome
  obtain ⟨stage,hstage⟩ := Option.ne_none_iff_exists'.mp hsome
  exact hidle (settingUp_iff.mpr ⟨task,stage,hstage⟩)

theorem life_init (key : DeviceKey) : ({} : Manager).life key = {} :=
  Life.ext rfl rfl (by simp [Manager.life]) rfl rfl rfl rfl rfl rfl

/-- What every move of a life preserves holds of every object in every state. -/
theorem life_invariant (key : DeviceKey) {inv : Life → Prop} (hinit : inv {})
    (hmove : ∀ d d', inv d → Life.Move config key .all d d' → inv d')
    (h : Transition.Reachable (Manager.step config) {} s) : inv (s.life key) :=
  Simulation.invariant_of_view (fun s => Manager.life s key)
    (fun _ _ _ _ hstep => moves_step key hstep) hmove (by rwa [life_init]) h

/-- The same for runs that break no setup off. -/
theorem life_invariant_unbroken (key : DeviceKey) {inv : Life → Prop} (hinit : inv {})
    (hmove : ∀ d d', inv d → Life.Move config key .unbroken d d' → inv d')
    (h : Transition.Reaches (Manager.step config) (fun s event => s.breaks event = false) {} s) :
    inv (s.life key) :=
  Simulation.invariant_of_view (fun s => Manager.life s key)
    (fun _ _ _ hguard hstep => moves_unbroken key hguard hstep) hmove (by rwa [life_init]) h

theorem guarded_reachable (h : Transition.Reachable (Manager.step config) {} s) (key : DeviceKey) :
    (s.life key).Guarded :=
  life_invariant key Life.guarded_init (fun _ _ hd hmove => hd.move hmove) h

end Pyhems.Device

import Pyhems.Device.Refinement
import Pyhems.Runtime.ReceptionOrder

/-! Registration of device objects: a setup either registers its object with everything that
identifies it, or leaves the data alone and the object free for the next instance list. -/
namespace Pyhems.Device
open Protocol Library Pyhems.Runtime Transition
open Get (Epc manufacturerCodeEpc)

/-! ### What a setup makes of its reads -/

def ReadMap (props : List Property) (epc : Epc) (epcs : Finset Epc) : Prop :=
  ∃ edt, ⟨epc,edt⟩ ∈ props ∧ parsePropertyMap edt = some epcs

/-- The state of an object as its setup registers it. -/
structure NodeState.SetUp (node : NodeState) (config : Config) (key : DeviceKey) (code : Nat)
    (initial : Finset Epc) (props : List Property) : Prop where
  manufacturer : node.manufacturerCode = code
  values : ∃ bytes, toBytes code 3 = .ok bytes ∧ node.properties = setupValues bytes props
  maps : extractPropertyMaps node.properties = (some node.getEpcs,some node.setEpcs,some node.infEpcs)
  monitored : node.monitoredEpcs = initial
  requested : node.infRequestEpcs = initial ∩ node.infEpcs
  candidates : ∃ fast, selectEpcs config.fastEpcs key.2.classCode code = .ok fast ∧
    node.fastCandidateEpcs = initial ∩ fast
  polled : (node.pollEpcs,node.fastPollEpcs) =
    computePollEpcs node.monitoredEpcs node.getEpcs node.fastCandidateEpcs node.infNotifiedEpcs
  silent : node.infNotifiedEpcs = ∅ ∧ node.infUnconfirmedEpcs = ∅
  untried : node.rangeRecoveryAttemptedEpcs = ∅

variable {config : Config} {key : DeviceKey} {s t : Manager}

theorem setupNode_setUp {code : Nat} {initial : Finset Epc} {props : List Property} {node : NodeState}
    (h : setupNode config key code initial props = .ok (some node)) :
    node.SetUp config key code initial props := by
  unfold setupNode at h
  cases hbytes : toBytes code 3 with
  | error exn =>
    rw [hbytes] at h
    cases h
  | ok bytes =>
    simp only [hbytes,bind,Except.bind] at h
    split at h
    · next getEpcs setEpcs infEpcs hmaps =>
      split at h
      · cases h
      · next fast hfast =>
        cases h
        exact ⟨rfl,⟨bytes,hbytes,rfl⟩,hmaps,rfl,rfl,⟨fast,hfast,rfl⟩,rfl,⟨rfl,rfl⟩,rfl⟩
    · cases h

/-- A value other than the manufacturer code was read. -/
theorem mem_of_setupValues {bytes : Bytes} {props : List Property} {epc : Epc} {edt : Bytes}
    (hepc : epc ≠ manufacturerCodeEpc) (h : setupValues bytes props epc = some edt) :
    ⟨epc,edt⟩ ∈ props := by
  unfold setupValues at h
  rw [LastWrite.writeAll_apply,Option.or_none] at h
  rcases List.mem_append.mp (LastWrite.mem_of_latest h) with hmem | hmem
  · obtain ⟨prop,hprop,he⟩ := List.mem_map.mp hmem
    cases he
    exact List.mem_of_mem_filter hprop
  · exact absurd (congrArg Prod.fst (List.mem_singleton.mp hmem)) hepc

theorem NodeState.SetUp.readMap {node : NodeState} {code : Nat} {initial epcs : Finset Epc}
    {props : List Property} (hnode : node.SetUp config key code initial props) {epc : Epc}
    (hepc : epc ≠ manufacturerCodeEpc)
    (h : parsePropertyMap ((node.properties epc).getD []) = some epcs) : ReadMap props epc epcs := by
  obtain ⟨bytes,_,hvalues⟩ := hnode.values
  cases hedt : node.properties epc with
  | none =>
    rw [hedt] at h
    cases h
  | some edt =>
    rw [hedt] at h
    rw [hvalues] at hedt
    exact ⟨edt,mem_of_setupValues hepc hedt,h⟩

/-! ### What registered objects rest on -/

/-- What a setup fixes of an object, and nothing changes later. -/
structure NodeState.SameDevice (node node' : NodeState) : Prop where
  manufacturer : node'.manufacturerCode = node.manufacturerCode
  getMap : node'.getEpcs = node.getEpcs
  setMap : node'.setEpcs = node.setEpcs
  infMap : node'.infEpcs = node.infEpcs
  monitored : node'.monitoredEpcs = node.monitoredEpcs
  candidates : node'.fastCandidateEpcs = node.fastCandidateEpcs
  requested : node'.infRequestEpcs = node.infRequestEpcs

theorem NodeState.SameDevice.trans {node node' node'' : NodeState} (h : node.SameDevice node')
    (h' : node'.SameDevice node'') : node.SameDevice node'' :=
  ⟨h'.manufacturer.trans h.manufacturer,h'.getMap.trans h.getMap,h'.setMap.trans h.setMap,
    h'.infMap.trans h.infMap,h'.monitored.trans h.monitored,h'.candidates.trans h.candidates,
    h'.requested.trans h.requested⟩

/-- A manufacturer code that an EDT of three bytes or more gave. -/
def Identified (edts : List Bytes) (code : Nat) : Prop :=
  ∃ edt ∈ edts, 3 ≤ edt.length ∧ code = fromBytes (edt.take 3)

/-- A registered object was identified, and its three property maps came with one setup read. -/
structure Complete (edts : List Bytes) (reads : List (List Property)) (node : NodeState) : Prop where
  identified : Identified edts node.manufacturerCode
  maps : ∃ props ∈ reads, ReadMap props EPC.getPropertyMap node.getEpcs ∧
    ReadMap props EPC.setPropertyMap node.setEpcs ∧ ReadMap props EPC.infPropertyMap node.infEpcs

theorem Identified.mono {edts edts' : List Bytes} {code : Nat} (h : Identified edts code)
    (hmore : edts ⊆ edts') : Identified edts' code := by
  obtain ⟨edt,hedt,hcode⟩ := h
  exact ⟨edt,hmore hedt,hcode⟩

theorem Complete.mono {edts edts' : List Bytes} {reads reads' : List (List Property)} {node : NodeState}
    (h : Complete edts reads node) (hedts : edts ⊆ edts') (hreads : reads ⊆ reads') :
    Complete edts' reads' node := by
  obtain ⟨props,hprops,hmaps⟩ := h.maps
  exact ⟨h.identified.mono hedts,⟨props,hreads hprops,hmaps⟩⟩

theorem Complete.congr {edts : List Bytes} {reads : List (List Property)} {node node' : NodeState}
    (h : Complete edts reads node) (hsame : node.SameDevice node') : Complete edts reads node' := by
  obtain ⟨props,hprops,hmaps⟩ := h.maps
  refine ⟨?_,⟨props,hprops,?_⟩⟩
  · rw [hsame.manufacturer]
    exact h.identified
  · rwa [hsame.getMap,hsame.setMap,hsame.infMap]

namespace Life

structure Sound (d : Life) : Prop where
  remembered : ∀ code, d.remembered = some code → Identified d.identified code
  selected : ∀ task code initial, d.setups task = some (.properties code initial) →
    Identified d.identified code
  complete : ∀ node, d.node = some node → Complete d.identified d.reads node

variable {permits : Permits} {d d' : Life}

theorem sound_init : Sound {} := ⟨nofun,nofun,nofun⟩

/-- A task goes to another stage than the setup read. -/
theorem Sound.setStage (hd : d.Sound) (task : Nat) (stage : Option SetupStage)
    (hstage : ∀ code initial, stage = some (.properties code initial) → Identified d.identified code) :
    (d.setStage task stage).Sound := by
  refine ⟨hd.remembered,fun other code initial h => ?_,hd.complete⟩
  by_cases hother : other = task
  · rw [hother,setStage_self] at h
    exact hstage code initial h
  · rw [setStage_other d hother] at h
    exact hd.selected other code initial h

/-- The state of the object changes, but not what its setup fixed. -/
theorem Sound.keep (hd : d.Sound) {node node' : NodeState} (hnode : d.node = some node)
    (hsame : node.SameDevice node') : Sound {d with node := some node'} := by
  refine ⟨hd.remembered,hd.selected,fun _ h => ?_⟩
  cases h
  exact (hd.complete node hnode).congr hsame

/-- What the records of the object say stays true as they grow. -/
theorem Sound.grow (hd : d.Sound) (hidentified : d.identified ⊆ d'.identified) (hreads : d.reads ⊆ d'.reads)
    (hremembered : ∀ code, d'.remembered = some code → Identified d'.identified code)
    (hsetups : d'.setups = d.setups) (hnode : d'.node = d.node) : d'.Sound := by
  refine ⟨hremembered,fun task code initial h => ?_,fun node h => ?_⟩
  · rw [hsetups] at h
    exact (hd.selected task code initial h).mono hidentified
  · rw [hnode] at h
    exact (hd.complete node h).mono hidentified hreads

theorem Sound.move (hd : d.Sound) (h : Move config key permits d d') : d'.Sound := by
  cases h with
  | learn edt hedt =>
    refine hd.grow (List.subset_append_left _ _) (List.Subset.refl _) (fun code h => ?_) rfl rfl
    cases h
    exact ⟨edt,List.mem_append_right _ (List.mem_singleton_self edt),hedt,rfl⟩
  | forget => exact hd.grow (List.Subset.refl _) (List.Subset.refl _) nofun rfl rfl
  | begin task =>
    have hset := hd.setStage task (some .manufacturerCode) nofun
    exact ⟨hset.remembered,hset.selected,hset.complete⟩
  | select task code initial _ hcode =>
    refine hd.setStage task _ fun code' initial' h => ?_
    cases h
    exact hd.remembered code hcode
  | read props =>
    exact hd.grow (List.Subset.refl _) (List.subset_append_left _ _) hd.remembered rfl rfl
  | register task code initial props node hstage hread hnode =>
    have hup := setupNode_setUp hnode
    refine ⟨hd.remembered,(hd.setStage task (some .registered) nofun).selected,fun _ h => ?_⟩
    cases h
    have hmaps := hup.maps
    unfold extractPropertyMaps at hmaps
    rw [Prod.mk.injEq,Prod.mk.injEq] at hmaps
    refine ⟨?_,⟨props,hread,hup.readMap (by decide) hmaps.1,hup.readMap (by decide) hmaps.2.1,
      hup.readMap (by decide) hmaps.2.2⟩⟩
    rw [hup.manufacturer]
    exact hd.selected task code initial hstage
  | write node properties hnode => exact hd.keep hnode ⟨rfl,rfl,rfl,rfl,rfl,rfl,rfl⟩
  | recover node properties hnode =>
    refine ⟨hd.remembered,hd.selected,fun _ h => ?_⟩
    cases h
    exact (hd.complete node hnode).congr ⟨rfl,rfl,rfl,rfl,rfl,rfl,rfl⟩
  | proceed task stage stage' _ _ hregistered =>
    refine hd.setStage task _ fun code initial h => ?_
    cases h
    cases hregistered
  | notified task stage node _ _ _ _ hnode =>
    refine ⟨hd.remembered,(hd.setStage task none nofun).selected,fun _ h => ?_⟩
    cases h
    exact (hd.complete node hnode).congr ⟨rfl,rfl,rfl,rfl,rfl,rfl,rfl⟩
  | announce task | fail task | drop task =>
    have hset := hd.setStage task none nofun
    exact ⟨hset.remembered,hset.selected,hset.complete⟩

/-! ### A registered object stays -/

theorem Move.registered (h : Move config key permits d d') (hd : d.node.isSome) : d'.node.isSome := by
  cases h with
  | register | write | recover | notified => rfl
  | _ => exact hd

/-- The object is registered as it was, and no setup of it is in progress unless one may be. -/
structure Kept (node : NodeState) (idle : Prop) (d : Life) : Prop where
  guarded : d.Guarded
  same : ∃ node', d.node = some node' ∧ node.SameDevice node'
  idle : idle → ∀ task, d.setups task = none

theorem Kept.move {node : NodeState} {idle : Prop} (hd : Kept node idle d)
    (h : Move config key permits d d') : Kept node idle d' := by
  have hguarded := hd.guarded.move h
  obtain ⟨kept,hkept,hsame⟩ := hd.same
  have hregistered : ∀ task stage, d.setups task = some stage → stage.isRegistered = true :=
    fun task stage hstage => (hd.guarded.registered task stage hstage).mp (by rw [hkept]; rfl)
  have hbusy : ∀ {task : Nat} {stage : SetupStage}, d.setups task = some stage → ¬ idle :=
    fun {task _} hstage hidle => by
      rw [hd.idle hidle task] at hstage
      cases hstage
  cases h with
  | learn | forget | read => exact ⟨hguarded,hd.same,hd.idle⟩
  | begin task hnode =>
    rw [hkept] at hnode
    cases hnode
  | select task code initial hstage => cases hregistered _ _ hstage
  | register task code initial props node hstage => cases hregistered _ _ hstage
  | write node' properties hnode =>
    cases hkept.symm.trans hnode
    exact ⟨hguarded,⟨_,rfl,hsame.trans ⟨rfl,rfl,rfl,rfl,rfl,rfl,rfl⟩⟩,hd.idle⟩
  | recover node' properties hnode =>
    cases hkept.symm.trans hnode
    exact ⟨hguarded,⟨_,rfl,hsame.trans ⟨rfl,rfl,rfl,rfl,rfl,rfl,rfl⟩⟩,hd.idle⟩
  | proceed task stage stage' hstage => exact ⟨hguarded,hd.same,fun hidle => absurd hidle (hbusy hstage)⟩
  | announce task stage _ hstage => exact ⟨hguarded,hd.same,fun hidle => absurd hidle (hbusy hstage)⟩
  | notified task stage node' _ _ hstage _ hnode =>
    cases hkept.symm.trans hnode
    exact ⟨hguarded,⟨_,rfl,hsame.trans ⟨rfl,rfl,rfl,rfl,rfl,rfl,rfl⟩⟩,
      fun hidle => absurd hidle (hbusy hstage)⟩
  | fail task stage hstage => exact ⟨hguarded,hd.same,fun hidle => absurd hidle (hbusy hstage)⟩
  | drop task stage hstage => exact ⟨hguarded,hd.same,fun hidle => absurd hidle (hbusy hstage)⟩

end Life

/-! ### What the operations of a setup leave alone -/

section Frames
variable {task : Nat} {worker : Option (NodeId × Nat)} {remaining : List EOJ}

theorem interrupt_data (task : Nat) (worker : Option (NodeId × Nat)) (activity : Activity) :
    (s.interrupt task worker activity).data = s.data := by
  unfold Manager.interrupt
  cases activity <;> cases worker <;> rfl

theorem raise_data (task : Nat) (worker : Option (NodeId × Nat)) (activity : Activity) (exn : Exn) :
    (s.raise task worker activity exn).data = s.data := by
  unfold Manager.raise
  split
  · exact interrupt_data task worker _
  · rfl
  · unfold Manager.finishJob
    cases worker <;> rfl

theorem requestProperties_data (code : Nat) :
    (s.requestProperties config task worker key remaining code).data = s.data := by
  unfold Manager.requestProperties
  split
  · exact raise_data ..
  · rfl

theorem setupIdentified_data {answer : Option Get.Attempt}
    (h : s.setupIdentified config task worker key remaining answer = some t) : t.data = s.data := by
  cases answer with
  | none =>
    obtain ⟨code,_,rfl⟩ := Option.map_eq_some_iff.mp h
    exact requestProperties_data code
  | some attempt =>
    rcases readManufacturerCode_cases s key attempt with ⟨exn,hread⟩ | ⟨edt,_,hread⟩
    · simp only [Manager.setupIdentified,hread] at h
      cases h
      exact raise_data ..
    · simp only [Manager.setupIdentified,hread] at h
      cases h
      exact requestProperties_data _

theorem enqueueNodeJob_tasks (nodeId : NodeId) (job : Job) :
    s.tasks <+: (s.enqueueNodeJob nodeId job).tasks := by
  have happend : (s.appendJob nodeId job).tasks = s.tasks := by
    unfold Manager.appendJob
    simp only
    split <;> rfl
  unfold Manager.enqueueNodeJob
  simp only
  split
  · rw [happend]
  · exact happend ▸ List.prefix_append _ _

theorem checkRanges_tasks (key : DeviceKey) (node : NodeState) :
    s.tasks <+: (s.checkRanges config key node).tasks := by
  unfold Manager.checkRanges
  split
  · exact List.prefix_refl _
  · exact enqueueNodeJob_tasks _ _

theorem applyFrame_tasks (key : DeviceKey) (node : NodeState) (frame : Frame) :
    s.tasks <+: (s.applyFrame config key node frame).tasks := by
  unfold Manager.applyFrame
  split
  · exact List.prefix_refl _
  · rw [notify_tasks]
    exact checkRanges_tasks (s := s.putNode key _) key _

theorem applyFrames_tasks (key : DeviceKey) (frames : List Frame) :
    s.tasks <+: (s.applyFrames config key frames).tasks := by
  unfold Manager.applyFrames
  induction frames generalizing s with
  | nil => exact List.prefix_refl _
  | cons frame frames ih =>
    rw [List.foldl_cons]
    refine List.IsPrefix.trans ?_ ih
    split
    · exact applyFrame_tasks key _ frame
    · exact List.prefix_refl _

end Frames

/-- The registration puts the object in the data, and its setup goes on. -/
theorem register_stays {task : Nat} {worker : Option (NodeId × Nat)} {remaining : List EOJ} {r : Routine}
    {c : Bool} (htask : s.tasks[task]? = some ⟨r,c⟩) (node : NodeState) :
    ((s.register config task worker key remaining node).data key).isSome ∧
      (s.register config task worker key remaining node).SettingUp key := by
  let u := {s.putNode key node with deferredFrames := Function.update s.deferredFrames key []}.proceed
    task (.jobs worker (.setup key .registered remaining))
  have hevolves : Evolves config .all u (u.applyFrames config key (s.deferredFrames key)) :=
    evolves_applyFrames (s.deferredFrames key)
  have hnode : (u.life key).node.isSome := by
    have hput : (u.life key).node = some node := Function.update_self ..
    rw [hput]
    rfl
  have hkept := Simulation.preserved (fun d : Life => d.node.isSome)
    (fun _ _ hd hmove => hmove.registered hd) (hevolves key) hnode
  refine ⟨hkept,?_⟩
  obtain ⟨hlt,_⟩ := List.getElem?_eq_some_iff.mp htask
  refine ⟨⟨.jobs worker (.setup key .registered remaining),false⟩,?_,?_⟩
  · exact (applyFrames_tasks key (s.deferredFrames key)).subset (List.mem_set hlt _)
  · rw [setupOf_self]
    rfl

/-- A step of the setup itself, before the registration: it registers the object, or it changes
no data at all. -/
theorem setup_resumes {task : Nat} {worker : Option (NodeId × Nat)} {stage : SetupStage}
    {remaining : List EOJ} {c : Bool} {outcome : Outcome}
    (htask : s.tasks[task]? = some ⟨.jobs worker (.setup key stage remaining),c⟩)
    (hstage : stage.isRegistered = false) (h : s.step config (.resume task outcome) = some t) :
    t.data = s.data ∨ (t.data key).isSome ∧ t.SettingUp key := by
  unfold Manager.step at h
  split at h
  · next hevent => cases hevent
  · cases h
  · simp only [Manager.perform,htask,Option.bind_some,Manager.resume] at h
    split at h
    · cases h
      exact Or.inl (interrupt_data ..)
    · cases stage with
      | manufacturerCode =>
        cases outcome with
        | manufacturer answer => exact Or.inl (setupIdentified_data h)
        | woken | properties | reply => cases h
      | properties code initial =>
        cases outcome with
        | properties result =>
          cases result with
          | error exn =>
            cases h
            exact Or.inl (raise_data ..)
          | ok props =>
            cases h
            unfold Manager.setupRead
            simp only
            split
            · exact Or.inl (raise_data ..)
            · exact Or.inl rfl
            · apply Or.inr
              apply register_stays
              exact htask
        | woken | manufacturer | reply => cases h
      | registered | recovery | recovered | notification => cases hstage

/-! ### Every run -/

/-- What holds of an object in every state. At most one setup of it is in progress, as the guard set
says; it is in the data only with all that was read (`complete`); a setup that has not registered it
changes no data and ends without a trace (`traceless`), so the next instance list that names it starts
another one (`again`); and once registered it stays what it is, with no new setup (`kept`). -/
structure Manager.Registration (config : Config) (s : Manager) (key : DeviceKey) : Prop where
  single : ∀ (task task' : Nat) (t t' : Task), s.tasks[task]? = some t → s.tasks[task']? = some t' →
    (t.routine.setupOf key).isSome → (t'.routine.setupOf key).isSome → task = task'
  guarded : key ∈ s.pendingSetups ↔ s.SettingUp key
  complete : ∀ node, s.data key = some node →
    Complete (entriesOf key s.identified) (entriesOf key s.setupReads) node
  traceless : ∀ task worker stage remaining c outcome t,
    s.tasks[task]? = some ⟨.jobs worker (.setup key stage remaining),c⟩ → s.data key = none →
    s.step config (.resume task outcome) = some t →
      (t.data key = none → t.data = s.data) ∧
      (¬ t.SettingUp key → t.data = s.data ∧ key ∉ t.pendingSetups)
  again : ∀ task worker remaining c, s.running = some task →
    s.tasks[task]? = some ⟨.jobs worker (.listing key.1 (key.2 :: remaining)),c⟩ →
    s.data key = none → ¬ s.SettingUp key → ∃ t, s.step config .advance = some t ∧ t.SettingUp key ∧
      t.data = s.data ∧ t.requests = s.requests ++ [.readManufacturerCode key]
  kept : ∀ node event t, s.data key = some node → s.step config event = some t →
    (∃ node', t.data key = some node' ∧ node.SameDevice node') ∧ (t.SettingUp key → s.SettingUp key)

theorem settingUp_begins {task : Nat} {worker : Option (NodeId × Nat)} {remaining : List EOJ} {r : Routine}
    {c : Bool} (htask : s.tasks[task]? = some ⟨r,c⟩) :
    (s.beginSetup task worker key remaining).SettingUp key := by
  obtain ⟨hlt,_⟩ := List.getElem?_eq_some_iff.mp htask
  refine ⟨⟨.jobs worker (.setup key .manufacturerCode remaining),false⟩,List.mem_set hlt _,?_⟩
  rw [setupOf_self]
  rfl

/-- Registration is complete, or it leaves no trace. -/
theorem registration (config : Config) (h : Reachable (Manager.step config) {} s) (key : DeviceKey) :
    s.Registration config key := by
  have hguarded := guarded_reachable h key
  have hiff : ∀ {u : Manager}, Reachable (Manager.step config) {} u →
      (key ∈ u.pendingSetups ↔ u.SettingUp key) := fun hu => by
    rw [settingUp_iff,← (guarded_reachable hu key).pending]
    exact (decide_eq_true_iff).symm
  refine ⟨fun task task' t t' ht ht' hsetup hsetup' => ?_,hiff h,?_,?_,?_,?_⟩
  · obtain ⟨stage,hstage⟩ := Option.isSome_iff_exists.mp hsetup
    obtain ⟨stage',hstage'⟩ := Option.isSome_iff_exists.mp hsetup'
    exact hguarded.single task task' stage stage' (by rw [life_setups ht,hstage])
      (by rw [life_setups ht',hstage'])
  · have hsound := life_invariant key Life.sound_init (fun _ _ hd hmove => hd.move hmove) h
    exact hsound.complete
  · intro task worker stage remaining c outcome t htask hdata hstep
    have hsetup : (s.life key).setups task = some stage := (life_setups htask).trans (setupOf_self ..)
    have hstage : stage.isRegistered = false := by
      cases hregistered : stage.isRegistered with
      | false => rfl
      | true =>
        have hnode := (hguarded.registered task stage hsetup).mpr hregistered
        rw [show (s.life key).node = none from hdata] at hnode
        cases hnode
    rcases setup_resumes htask hstage hstep with hsame | ⟨hnode,hsetting⟩
    · refine ⟨fun _ => hsame,fun hidle => ⟨hsame,fun hpending => hidle ?_⟩⟩
      exact (hiff (h.tail trivial hstep)).mp hpending
    · refine ⟨fun hnone => ?_,fun hidle => absurd hsetting hidle⟩
      rw [hnone] at hnode
      cases hnode
  · intro task worker remaining c hrunning htask hdata hidle
    have hpending : key ∉ s.pendingSetups := fun hpending => hidle ((hiff h).mp hpending)
    refine ⟨s.beginSetup task worker key remaining,?_,settingUp_begins htask,rfl,rfl⟩
    simp [Manager.step,hrunning,htask,Manager.advance,hdata,hpending]
  · intro node event t hdata hstep
    have hkept : Life.Kept node (¬ s.SettingUp key) (s.life key) :=
      ⟨hguarded,⟨node,hdata,⟨rfl,rfl,rfl,rfl,rfl,rfl,rfl⟩⟩,life_idle⟩
    have hafter := Simulation.preserved _ (fun _ _ hd hmove => hd.move hmove) (moves_step key hstep) hkept
    refine ⟨hafter.same,fun hsetting => ?_⟩
    by_contra hidle
    obtain ⟨task,stage,hstage⟩ := settingUp_iff.mp hsetting
    rw [hafter.idle hidle task] at hstage
    cases hstage

/-! ### A sensor that is set up -/

/-- The operation status of humidity sensors is monitored. -/
def sensorConfig : Config where
  monitoredEpcs := .mapping fun classCode => if classCode = 0x0012 then some {0x80} else none
  fastEpcs := .mapping fun _ => none
  bindings := curatedBindings

def sensor : DeviceKey := ("fe01",humiditySensor)

def sensorCode : Get.Attempt := .answered [⟨manufacturerCodeEpc,[0x00,0x00,0x01]⟩]

/-- The sensor notifies 0x80 and can be asked for it; `status` is its value. -/
def sensorProperties (status : UInt8) : List Property :=
  [⟨EPC.infPropertyMap,[1,0x80]⟩,⟨EPC.setPropertyMap,[0]⟩,⟨EPC.getPropertyMap,[1,0x80]⟩,⟨0x80,[status]⟩]

/-- The instance list of the node, and the setup of the sensor up to its setup read. -/
def sensorListed : List ManagerEvent :=
  [.start,.received (.instanceList 0 [humiditySensor] "fe01"),.consume,.resume 1 .woken,.advance,.advance,
    .resume 1 (.manufacturer (some sensorCode))]

/-- The setup from there up to its INF_REQ. -/
def sensorRegistered (status : UInt8) : List ManagerEvent :=
  [.resume 1 (.properties (.ok (sensorProperties status))),.advance,.advance]

theorem registration_sensor : ∃ s : Manager, (s.data sensor).isSome ∧ s.SettingUp sensor ∧
    s.Registration sensorConfig sensor := by
  have hrun : (exec (Manager.step sensorConfig) {} (sensorListed ++ sensorRegistered 0x30)).any
      (fun s => decide ((s.data sensor).isSome ∧ s.SettingUp sensor)) = true := by decide +kernel
  obtain ⟨s,hs,hdata⟩ := Option.any_eq_true _ _ |>.mp hrun
  obtain ⟨hdata,hsetting⟩ := of_decide_eq_true hdata
  exact ⟨s,hdata,hsetting,registration sensorConfig (reachable_of_exec hs) sensor⟩

end Pyhems.Device

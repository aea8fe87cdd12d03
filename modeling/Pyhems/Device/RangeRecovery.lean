import Pyhems.Device.Registration

/-! Initial ranges of paged lists. A selector is written at most once, because it counts as tried
before its SetC is awaited, on both routes that lead to one. -/
namespace Pyhems.Device
open Protocol Library Pyhems.Runtime Transition
open Get (Epc)

def writtenEpcs (recoveries : List (List Property)) : List Epc :=
  recoveries.flatMap fun properties => properties.map Property.epc

def recoveriesOf (key : DeviceKey) (requests : List ManagerRequest) : List (List Property) :=
  requests.filterMap fun request => request.recoveryOf key

def Manager.cached (s : Manager) (key : DeviceKey) (epc : Epc) : Option Bytes :=
  (s.data key).bind fun node => node.properties epc

variable {config : Config} {key : DeviceKey} {s t : Manager}

/-- What was written was tried, and nothing was written twice. -/
structure Life.Tried (d : Life) : Prop where
  guarded : d.Guarded
  unregistered : d.node = none → d.recoveries = []
  tried : ∀ node, d.node = some node → ∀ epc ∈ writtenEpcs d.recoveries,
    epc ∈ node.rangeRecoveryAttemptedEpcs
  once : (writtenEpcs d.recoveries).Nodup

namespace Life
variable {permits : Permits} {d d' : Life}

theorem tried_init : Tried {} := ⟨guarded_init,fun _ => rfl,nofun,List.nodup_nil⟩

theorem writtenEpcs_concat (recoveries : List (List Property)) (properties : List Property) :
    writtenEpcs (recoveries ++ [properties]) = writtenEpcs recoveries ++ properties.map Property.epc := by
  simp [writtenEpcs]

/-- No SetC is issued, and what was tried stays so. -/
theorem Tried.congr (hd : d.Tried) (hguarded : d'.Guarded) (hrecoveries : d'.recoveries = d.recoveries)
    (hnode : d'.node = none → d.node = none)
    (htried : ∀ node', d'.node = some node' → ∃ node, d.node = some node ∧
      node'.rangeRecoveryAttemptedEpcs = node.rangeRecoveryAttemptedEpcs) : d'.Tried := by
  refine ⟨hguarded,fun h => hrecoveries.trans (hd.unregistered (hnode h)),fun node' h epc hepc => ?_,?_⟩
  · obtain ⟨node,hsome,hsame⟩ := htried node' h
    rw [hrecoveries] at hepc
    rw [hsame]
    exact hd.tried node hsome epc hepc
  · rw [hrecoveries]
    exact hd.once

theorem Tried.recover (hd : d.Tried) {node : NodeState} (hnode : d.node = some node)
    (properties : List Property) (hproperties : properties =
      collectionRangeRecoveryProperties (config.bindings.get key.2.classCode) node) :
    (writtenEpcs (d.recoveries ++ [properties])).Nodup ∧
      ∀ epc ∈ writtenEpcs (d.recoveries ++ [properties]),
        epc ∈ node.rangeRecoveryAttemptedEpcs ∪ epcsOf properties := by
  rw [writtenEpcs_concat]
  constructor
  · refine List.nodup_append.mpr ⟨hd.once,?_,fun epc hepc other hother he => ?_⟩
    · rw [hproperties]
      exact recoveryProperties_nodup (config.bindings.distinct key.2.classCode)
    · obtain ⟨prop,hprop,rfl⟩ := List.mem_map.mp hother
      rw [hproperties] at hprop
      obtain ⟨binding,_,hunset⟩ := recoveryProperties_unset hprop
      exact hunset.untried (he ▸ hd.tried node hnode epc hepc)
  · intro epc hepc
    rcases List.mem_append.mp hepc with hold | hnew
    · exact Finset.mem_union_left _ (hd.tried node hnode epc hold)
    · exact Finset.mem_union_right _ (List.mem_toFinset.mpr hnew)

theorem Tried.move (hd : d.Tried) (h : Move config key permits d d') : d'.Tried := by
  have hguarded := hd.guarded.move h
  cases h with
  | learn | forget | read | begin | select | proceed | announce | fail | drop =>
    exact hd.congr hguarded rfl id fun node h => ⟨node,h,rfl⟩
  | register task code initial props node hstage _ hnode =>
    have hnone := hd.unregistered (hd.guarded.unregistered hstage rfl)
    have hwritten : writtenEpcs d.recoveries = [] := by
      rw [hnone]
      rfl
    exact ⟨hguarded,nofun,fun node' _ epc hepc => absurd hepc (hwritten ▸ List.not_mem_nil),hd.once⟩
  | write node properties hnode =>
    refine hd.congr hguarded rfl nofun fun node' h => ⟨node,hnode,?_⟩
    cases h
    rfl
  | notified task stage node reply result _ _ hnode =>
    refine hd.congr hguarded rfl nofun fun node' h => ⟨node,hnode,?_⟩
    cases h
    rfl
  | recover node properties hnode hproperties =>
    obtain ⟨honce,htried⟩ := hd.recover hnode properties hproperties
    refine ⟨hguarded,nofun,fun node' h => ?_,honce⟩
    cases h
    exact htried

/-- Without the permission nothing is written. -/
theorem Move.recoveries (h : Move config key permits d d') (hrecovers : ¬ permits.recovers key) :
    d'.recoveries = d.recoveries := by
  cases h with
  | recover _ _ _ _ h => exact absurd h hrecovers
  | _ => rfl

end Life

/-! ### The step that issues a SetC -/

theorem beginRecovery_cases (config : Config) (s : Manager) (key : DeviceKey) :
    s.beginRecovery config key = (s,[]) ∨ ∃ node prop properties, s.data key = some node ∧
      collectionRangeRecoveryProperties (config.bindings.get key.2.classCode) node = prop :: properties ∧
      s.beginRecovery config key =
        ((s.putNode key {node with rangeRecoveryAttemptedEpcs :=
            node.rangeRecoveryAttemptedEpcs ∪ epcsOf (prop :: properties)}).request
          (.recovery key (prop :: properties)),prop :: properties) := by
  unfold Manager.beginRecovery
  split
  · exact Or.inl rfl
  · next node hnode =>
    simp only
    split
    · exact Or.inl rfl
    · next hproperties =>
      obtain ⟨prop,properties,hcons⟩ := List.exists_cons_of_ne_nil hproperties
      exact Or.inr ⟨node,prop,properties,hnode,hcons,by rw [hcons]⟩

/-- A SetC for unset ranges of the object, on the values that are cached when it is issued. -/
structure Manager.Issues (config : Config) (s t : Manager) (key : DeviceKey) (node : NodeState)
    (properties : List Property) : Prop where
  registered : s.data key = some node
  issued : recoveriesOf key t.requests = recoveriesOf key s.requests ++ [properties]
  unset : ∀ prop ∈ properties, ∃ binding ∈ config.bindings.get key.2.classCode, binding.Unset node prop
  cached : t.cached = s.cached

theorem cached_putNode {node node' : NodeState} (hnode : s.data key = some node)
    (hsame : node'.properties = node.properties) : (s.putNode key node').cached = s.cached := by
  funext key' epc
  unfold Manager.cached Manager.putNode
  by_cases hkey : key' = key
  · subst hkey
    simp only [Function.update_self,hnode,Option.bind_some,hsame]
  · simp only [Function.update_of_ne hkey]

theorem notify_data (key : DeviceKey) (epcs : Finset Epc) :
    (s.notifyPropertiesChanged key epcs).data = s.data := by
  unfold Manager.notifyPropertiesChanged
  split <;> rfl

theorem finishJob_frame (task : Nat) (worker : Option (NodeId × Nat)) :
    (s.finishJob task worker).requests = s.requests ∧ (s.finishJob task worker).data = s.data := by
  unfold Manager.finishJob
  cases worker <;> exact ⟨rfl,rfl⟩

theorem issues_of_begin {node node' : NodeState} {prop : Property} {properties : List Property}
    (hnode : s.data key = some node)
    (hproperties : collectionRangeRecoveryProperties (config.bindings.get key.2.classCode) node =
      prop :: properties) (hsame : node'.properties = node.properties)
    (hrequests : t.requests = s.requests ++ [.recovery key (prop :: properties)])
    (hdata : t.data = (s.putNode key node').data) : s.Issues config t key node (prop :: properties) := by
  refine ⟨hnode,?_,fun p hp => recoveryProperties_unset (hproperties ▸ hp),?_⟩
  · rw [hrequests]
    simp [recoveriesOf,ManagerRequest.recoveryOf]
  · rw [← cached_putNode hnode hsame]
    unfold Manager.cached
    rw [hdata]

/-- A step issues no SetC for the object, or one for unset ranges. -/
theorem recoveries_step {event : ManagerEvent} (h : s.step config event = some t) (key : DeviceKey) :
    recoveriesOf key t.requests = recoveriesOf key s.requests ∨
      ∃ node properties, s.Issues config t key node properties := by
  by_cases hrecovers : s.Recovers event key
  · obtain ⟨rfl,task,worker,activity,c,hrunning,htask,hactivity⟩ := hrecovers
    have hbegin := beginRecovery_cases config s key
    simp only [Manager.step,hrunning,htask] at h
    unfold Activity.recovers at hactivity
    split at hactivity
    · cases hactivity
      simp only [Manager.advance,Manager.setupRecovery,Option.some.injEq] at h
      rcases hbegin with hbegin | ⟨node,prop,properties,hnode,hproperties,hbegin⟩
      · rw [hbegin] at h
        subst h
        exact Or.inl rfl
      · rw [hbegin] at h
        subst h
        refine Or.inr ⟨node,prop :: properties,issues_of_begin hnode hproperties ?_ rfl rfl⟩
        rfl
    · cases hactivity
      simp only [Manager.advance,Manager.jobRecovery,Option.some.injEq] at h
      rcases hbegin with hbegin | ⟨node,prop,properties,hnode,hproperties,hbegin⟩
      · rw [hbegin] at h
        subst h
        apply Or.inl
        simp only [(finishJob_frame (s := s) task worker).1]
      · rw [hbegin] at h
        subst h
        refine Or.inr ⟨node,prop :: properties,issues_of_begin hnode hproperties ?_ rfl rfl⟩
        rfl
    · cases hactivity
  · exact Or.inl (Simulation.preserved (fun d : Life => d.recoveries = (s.life key).recoveries)
      (fun _ _ hd hmove => (hmove.recoveries hrecovers).trans hd) (evolves_step h key) rfl)

/-! ### The step after its answer -/

/-- The SetC that the job awaits for the object. -/
def Activity.written (key : DeviceKey) : Activity → Option (List Property)
  | .setup key' (.recovery written) _ => if key' = key then some written else none
  | .recovering key' written => if key' = key then written else none
  | _ => none

theorem endRecovery_cached {written : List Property} {reply : Reply} {result : SetRequestResult}
    (hresult : Pyhems.Runtime.setProperties written reply = .ok result) {key' : DeviceKey} {epc : Epc}
    (hchanged : (s.endRecovery key written result).1.cached key' epc ≠ s.cached key' epc) :
    key' = key ∧ epc ∈ epcsOf written ∧ reply.Accepts epc := by
  unfold Manager.endRecovery at hchanged
  split at hchanged
  · exact absurd rfl hchanged
  · next node hnode =>
    split at hchanged
    · by_cases hkey : key' = key
      · subst hkey
        refine ⟨rfl,?_⟩
        have hmem : epc ∈ epcsOf (written.filter fun prop => decide (prop.epc ∈ result.acceptedEpcs)) := by
          by_contra hnot
          refine hchanged ?_
          simp only [Manager.cached,Manager.putNode,Function.update_self,Option.bind_some,hnode]
          exact writeProperties_of_notMem _ hnot
        obtain ⟨prop,hprop,rfl⟩ := List.mem_map.mp (List.mem_toFinset.mp hmem)
        obtain ⟨hwritten,haccepted⟩ := List.mem_filter.mp hprop
        exact ⟨List.mem_toFinset.mpr (List.mem_map_of_mem hwritten),
          setProperties_accepts hresult (of_decide_eq_true haccepted)⟩
      · refine absurd ?_ hchanged
        simp only [Manager.cached,Manager.putNode,Function.update_of_ne hkey]
    · exact absurd rfl hchanged

theorem cached_congr (h : t.data = s.data) : t.cached = s.cached := by
  unfold Manager.cached
  rw [h]

/-- The job goes on from its SetC: only what the device accepted changes in the caches. -/
theorem cached_resumes {task : Nat} {worker : Option (NodeId × Nat)} {activity : Activity} {c : Bool}
    {written : List Property} {reply : Reply} (htask : s.tasks[task]? = some ⟨.jobs worker activity,c⟩)
    (hwritten : activity.written key = some written)
    (h : s.step config (.resume task (.reply reply)) = some t) {key' : DeviceKey} {epc : Epc}
    (hchanged : t.cached key' epc ≠ s.cached key' epc) :
    key' = key ∧ epc ∈ epcsOf written ∧ reply.Accepts epc := by
  have hsame : t.data ≠ s.data := fun hdata => hchanged (by rw [cached_congr hdata])
  unfold Manager.step at h
  split at h
  · next hevent => cases hevent
  · cases h
  · simp only [Manager.perform,htask,Option.bind_some,Manager.resume] at h
    split at h
    · cases h
      exact absurd (interrupt_data ..) hsame
    · unfold Activity.written at hwritten
      split at hwritten
      · next setting written' _ =>
        obtain ⟨rfl,hw⟩ := Option.ite_none_right_eq_some.mp hwritten
        have hw := Option.some.inj hw
        subst hw
        simp only [Manager.resumeJob,Option.some.injEq] at h
        subst h
        unfold Manager.setupRecovered at hchanged hsame
        split at hsame
        · exact absurd (raise_data ..) hsame
        · next result hresult =>
          rw [hresult] at hchanged
          exact endRecovery_cached hresult hchanged
      · next setting written' =>
        obtain ⟨rfl,rfl⟩ := Option.ite_none_right_eq_some.mp hwritten
        simp only [Manager.resumeJob,Option.some.injEq] at h
        subst h
        unfold Manager.jobRecovered at hchanged hsame
        split at hsame
        · exact absurd (raise_data ..) hsame
        · next result hresult =>
          let u := (s.endRecovery setting written result).1
          let changed := (s.endRecovery setting written result).2
          have hdata : ((u.notifyPropertiesChanged setting changed).finishJob task worker).data = u.data :=
            (finishJob_frame task worker).2.trans (notify_data setting changed)
          rw [hresult] at hchanged
          have hu : u.cached key' epc ≠ s.cached key' epc := by
            rw [← cached_congr hdata]
            exact hchanged
          exact endRecovery_cached hresult hu
      · cases hwritten

/-- What holds of the ranges of an object: no selector is ever written twice, every SetC is for unset
ranges, and only what the device accepts of it reaches the cache. -/
structure Manager.RangesOnce (config : Config) (s : Manager) (key : DeviceKey) : Prop where
  once : (writtenEpcs (recoveriesOf key s.requests)).Nodup
  unset : ∀ event t, s.step config event = some t →
    recoveriesOf key t.requests = recoveriesOf key s.requests ∨
      ∃ node properties, s.Issues config t key node properties
  accepted : ∀ task worker activity c written reply t, s.tasks[task]? = some ⟨.jobs worker activity,c⟩ →
    activity.written key = some written → s.step config (.resume task (.reply reply)) = some t →
      ∀ key' epc, t.cached key' epc ≠ s.cached key' epc →
        key' = key ∧ epc ∈ epcsOf written ∧ reply.Accepts epc

theorem ranges_once (h : Reachable (Manager.step config) {} s) (key : DeviceKey) :
    s.RangesOnce config key := by
  have htried := life_invariant key Life.tried_init (fun _ _ hd hmove => hd.move hmove) h
  exact ⟨htried.once,fun _ _ hstep => recoveries_step hstep key,
    fun _ _ _ _ _ _ _ htask hwritten hstep _ _ => cached_resumes htask hwritten hstep⟩

/-! ### A board with an unset range -/

def board : DeviceKey := ("fe01",⟨0x028701,by decide⟩)

/-- Eight channels, and a list of instantaneous powers that no range was set for. -/
def boardProperties : List Property :=
  [⟨EPC.infPropertyMap,[0]⟩,⟨EPC.setPropertyMap,[1,0xB2]⟩,⟨EPC.getPropertyMap,[2,0xB1,0xB3]⟩,
    ⟨0xB1,[8]⟩,⟨0xB3,[0xFD,0xFD]⟩]

/-- The setup of the board sets the range, and a list that is unset later leads to no other SetC. -/
def boardEvents : List ManagerEvent :=
  [.start,.received (.instanceList 0 [board.2] "fe01"),.consume,.resume 1 .woken,.advance,.advance,
    .resume 1 (.manufacturer (some sensorCode)),.resume 1 (.properties (.ok boardProperties)),.advance,
    .resume 1 (.reply (some (.ok (true,none)))),.advance,.advance,.advance,
    .processFrame board ⟨board.2,controllerInstance,.inf,0,[⟨0xB3,[0xFD,0xFD]⟩]⟩]

theorem ranges_once_board : ∃ s : Manager,
    recoveriesOf board s.requests = [[⟨0xB2,[1,8]⟩]] ∧ s.RangesOnce sensorConfig board := by
  have hrun : (exec (Manager.step sensorConfig) {} boardEvents).any
      (fun s => decide (recoveriesOf board s.requests = [[⟨0xB2,[1,8]⟩]])) = true := by decide +kernel
  obtain ⟨s,hs,hcheck⟩ := (Option.any_eq_true _ _).mp hrun
  exact ⟨s,of_decide_eq_true hcheck,ranges_once (reachable_of_exec hs) board⟩

end Pyhems.Device

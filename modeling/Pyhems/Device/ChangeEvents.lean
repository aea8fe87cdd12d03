import Pyhems.Device.DeferredFrames
import Pyhems.Device.SetResults

/-! The cache and the events about it. Values are written one by one, and an EPC counts as changed once
a write differs from what was there before the write. -/
namespace Pyhems.Device
open Protocol Library Pyhems.Runtime Transition
open Get (Epc)

/-! ### Written values -/

/-- A list never writes another value before it writes the one that is there already. -/
def Settled (values : Values) (written : List Property) : Prop :=
  ∀ epc, LastWrite.latest (writesOf written) epc = values epc →
    ∀ prop ∈ written, prop.epc = epc → values epc = some prop.edt

variable {values : Values} {written : List Property}

theorem writeProperties_concat (prop : Property) : writeProperties values (written ++ [prop]) =
    writeProperty (writeProperties values written) prop := by
  rw [writeProperties,List.foldl_concat]
  rfl

theorem writeProperties_apply (epc : Epc) : (writeProperties values written).1 epc =
    (LastWrite.latest (writesOf written) epc).or (values epc) := by
  rw [writeProperties_values,LastWrite.writeAll_apply]

theorem exists_other {epc : Epc} (h : (writeProperties values written).1 epc ≠ values epc) :
    ∃ prop ∈ written, prop.epc = epc ∧ values epc ≠ some prop.edt := by
  rw [writeProperties_apply] at h
  cases hlatest : LastWrite.latest (writesOf written) epc with
  | none =>
    rw [hlatest] at h
    exact absurd rfl h
  | some edt =>
    rw [hlatest] at h
    obtain ⟨prop,hprop,he⟩ := List.mem_map.mp (LastWrite.mem_of_latest hlatest)
    cases he
    exact ⟨prop,hprop,rfl,fun hsame => h hsame.symm⟩

/-- An EPC is collected exactly if one of its writes differs from the value at the start. -/
theorem mem_collected (epc : Epc) : epc ∈ (writeProperties values written).2 ↔
    ∃ prop ∈ written, prop.epc = epc ∧ values epc ≠ some prop.edt := by
  induction written using List.reverseRecOn with
  | nil => simp [writeProperties]
  | append_singleton written prop ih =>
    have hconcat : (∃ p ∈ written ++ [prop], p.epc = epc ∧ values epc ≠ some p.edt) ↔
        epc ∈ (writeProperties values written).2 ∨ prop.epc = epc ∧ values epc ≠ some prop.edt := by
      rw [ih]
      simp [or_and_right,exists_or]
    rw [hconcat,writeProperties_concat,writeProperty]
    split
    · next hnew =>
      rw [Finset.mem_insert]
      constructor
      · rintro (rfl | hold)
        · by_cases hstart : values prop.epc = some prop.edt
          · exact Or.inl (ih.mpr (exists_other (hstart ▸ hnew)))
          · exact Or.inr ⟨rfl,hstart⟩
        · exact Or.inl hold
      · rintro (hold | ⟨rfl,_⟩)
        · exact Or.inr hold
        · exact Or.inl rfl
    · next hsame =>
      refine ⟨Or.inl,?_⟩
      rintro (hold | ⟨rfl,hstart⟩)
      · exact hold
      · exact ih.mpr (exists_other ((not_not.mp hsame).trans_ne hstart.symm))

/-- What is collected is what changed, for a settled list and for no other. -/
theorem collected_iff : (∀ epc, epc ∈ (writeProperties values written).2 ↔
    (writeProperties values written).1 epc ≠ values epc) ↔ Settled values written := by
  constructor
  · intro h epc hlatest prop hprop hepc
    by_contra hdiffers
    have hchanged := (h epc).mp ((mem_collected epc).mpr ⟨prop,hprop,hepc,hdiffers⟩)
    rw [writeProperties_apply,hlatest,Option.or_self] at hchanged
    exact hchanged rfl
  · intro h epc
    refine ⟨fun hmem hsame => ?_,fun hchanged => (mem_collected epc).mpr (exists_other hchanged)⟩
    obtain ⟨prop,hprop,hepc,hdiffers⟩ := (mem_collected epc).mp hmem
    have hmem : (epc,prop.edt) ∈ writesOf written := List.mem_map.mpr ⟨prop,hprop,by rw [hepc]⟩
    obtain ⟨edt,hlatest⟩ := Option.ne_none_iff_exists'.mp (LastWrite.latest_ne_none hmem)
    rw [writeProperties_apply,hlatest,Option.some_or] at hsame
    exact hdiffers (h epc (hlatest.trans hsame) prop hprop hepc)

theorem settled_of_nodup (h : (written.map fun prop => prop.epc).Nodup) : Settled values written := by
  intro epc hlatest prop hprop hepc
  have hmem : (epc,prop.edt) ∈ writesOf written := List.mem_map.mpr ⟨prop,hprop,by rw [hepc]⟩
  obtain ⟨edt,he⟩ := Option.ne_none_iff_exists'.mp (LastWrite.latest_ne_none hmem)
  obtain ⟨last,hlast,hwrite⟩ := List.mem_map.mp (LastWrite.mem_of_latest he)
  cases hwrite
  cases List.inj_on_of_nodup_map h hprop hlast hepc
  exact hlatest.symm.trans he

/-! ### Updates -/

/-- A frame of a live object, a deferred frame at the registration, the result of a `set_properties`, and
the answer that `_recover_and_notify` awaits. -/
inductive Update where
  | live (frame : Frame)
  | deferred (frame : Frame)
  | set (properties : List Property) (refresh : Bool) (result : SetRequestResult)
  | recovery (task : Nat) (worker : Option (NodeId × Nat)) (properties : List Property) (reply : Reply)

/-- What the manager does with an update of an object. -/
def Manager.update (config : Config) (s : Manager) (key : DeviceKey) : Update → Manager
  | .live frame => s.processFrameEvent config key frame
  | .deferred frame => s.applyFrames config key [frame]
  | .set properties refresh result => s.propertiesSet key properties refresh result
  | .recovery task worker properties reply => s.jobRecovered task worker key properties reply

/-- The properties that a SetC may change: those that were accepted. -/
def acceptedOf (properties : List Property) (result : SetRequestResult) : List Property :=
  if result.sent then properties.filter fun prop => decide (prop.epc ∈ result.acceptedEpcs) else []

/-- The properties that an update may change: those of a value frame, or the accepted ones. -/
def Update.properties : Update → List Property
  | .live frame | .deferred frame => if frame.esv ∈ valueEsvs then frame.properties else []
  | .set properties _ result => acceptedOf properties result
  | .recovery _ _ properties reply =>
    match Pyhems.Runtime.setProperties properties reply with
    | .ok result => acceptedOf properties result
    | .error _ => []

/-- The cache takes the last EDT of every EPC, nothing else changes, and the one event names exactly what
changed. -/
structure Agrees (s t : Manager) (key : DeviceKey) (written : List Property) : Prop where
  values : ∀ epc, t.cached key epc = (LastWrite.latest (writesOf written) epc).or (s.cached key epc)
  others : ∀ key' ≠ key, t.data key' = s.data key'
  event : (t.emitted = s.emitted ∧ ∀ epc, t.cached key epc = s.cached key epc) ∨
    ∃ epcs : Finset Epc, epcs.Nonempty ∧ t.emitted = s.emitted ++ [.propertiesChanged key epcs] ∧
      ∀ epc, epc ∈ epcs ↔ t.cached key epc ≠ s.cached key epc

/-- What all updates do: write the values, and report what was collected. -/
structure Writes (s t : Manager) (key : DeviceKey) (written : List Property) : Prop where
  values : t.cached key = (writeProperties (s.cached key) written).1
  others : ∀ key' ≠ key, t.data key' = s.data key'
  emitted : t.emitted = s.emitted ++
    if (writeProperties (s.cached key) written).2 = ∅ then []
    else [.propertiesChanged key (writeProperties (s.cached key) written).2]

variable {config : Config} {s t : Manager} {key : DeviceKey} {node : NodeState}

theorem Writes.agrees_iff (h : Writes s t key written) :
    Agrees s t key written ↔ Settled (s.cached key) written := by
  rw [← collected_iff]
  constructor
  · rintro ⟨_,_,hevent⟩ epc
    rw [← h.values]
    rcases hevent with ⟨hemitted,hsame⟩ | ⟨epcs,_,hemitted,hexact⟩
    · have hnone : (writeProperties (s.cached key) written).2 = ∅ := by
        by_contra hsome
        rw [h.emitted,if_neg hsome] at hemitted
        simp at hemitted
      simp [hnone,hsame epc]
    · rw [h.emitted,List.append_cancel_left_eq] at hemitted
      split at hemitted
      · cases hemitted
      · cases hemitted
        exact hexact epc
  · intro hexact
    refine ⟨fun epc => by rw [h.values,writeProperties_apply],h.others,?_⟩
    by_cases hnone : (writeProperties (s.cached key) written).2 = ∅
    · refine Or.inl ⟨by rw [h.emitted,if_pos hnone,List.append_nil],fun epc => ?_⟩
      rw [h.values]
      by_contra hchanged
      have hmem := (hexact epc).mpr hchanged
      rw [hnone] at hmem
      cases hmem
    · refine Or.inr ⟨_,Finset.nonempty_iff_ne_empty.mpr hnone,by rw [h.emitted,if_neg hnone],fun epc => ?_⟩
      rw [h.values]
      exact hexact epc

theorem writes_nothing (hdata : t.data = s.data) (hemitted : t.emitted = s.emitted) : Writes s t key [] := by
  refine ⟨?_,fun key' _ => by rw [hdata],?_⟩
  · rw [cached_congr hdata]
    rfl
  · rw [hemitted]
    exact (List.append_nil _).symm

theorem notify_emitted (epcs : Finset Epc) : (s.notifyPropertiesChanged key epcs).emitted =
    s.emitted ++ if epcs = ∅ then [] else [.propertiesChanged key epcs] := by
  unfold Manager.notifyPropertiesChanged
  split
  · exact (List.append_nil _).symm
  · rfl

theorem checkRanges_data (node : NodeState) : (s.checkRanges config key node).data = s.data := by
  unfold Manager.checkRanges
  split
  · rfl
  · exact enqueueNodeJob_data _ _

theorem checkRanges_emitted (node : NodeState) : (s.checkRanges config key node).emitted = s.emitted := by
  have happend : ∀ nodeId job, (s.appendJob nodeId job).emitted = s.emitted := by
    intro nodeId job
    unfold Manager.appendJob
    simp only
    split <;> rfl
  unfold Manager.checkRanges
  split
  · rfl
  · unfold Manager.enqueueNodeJob
    simp only
    split <;> exact happend _ _

theorem cached_of_data {values : Values}
    (h : t.data = Function.update s.data key (some {node with properties := values})) :
    t.cached key = values := by
  funext epc
  rw [Manager.cached,h,Function.update_self]
  rfl

theorem cached_of_node (h : s.data key = some node) : s.cached key = node.properties := by
  funext epc
  rw [Manager.cached,h]
  rfl

/-- New values for the object, and the event about them. -/
theorem writes_of_data (hnode : s.data key = some node)
    (hdata : t.data = Function.update s.data key
      (some {node with properties := (writeProperties node.properties written).1}))
    (hemitted : t.emitted = s.emitted ++
      if (writeProperties node.properties written).2 = ∅ then []
      else [.propertiesChanged key (writeProperties node.properties written).2]) :
    Writes s t key written := by
  rw [← cached_of_node hnode] at hdata hemitted
  exact ⟨cached_of_data hdata,fun key' hne => by rw [hdata,Function.update_of_ne hne],hemitted⟩

theorem writes_applyFrame (config : Config) (hnode : s.data key = some node) (frame : Frame) :
    Writes s (s.applyFrame config key node frame) key
      (if frame.esv ∈ valueEsvs then frame.properties else []) := by
  unfold Manager.applyFrame
  by_cases hesv : frame.esv ∈ valueEsvs
  · rw [if_pos hesv,if_neg (not_not.mpr hesv)]
    apply writes_of_data hnode
    · rw [notify_data,checkRanges_data]
      rfl
    · rw [notify_emitted,checkRanges_emitted]
      rfl
  · rw [if_neg hesv,if_pos hesv]
    exact writes_nothing rfl rfl

theorem writes_processFrameEvent (config : Config) (hnode : s.data key = some node) (frame : Frame) :
    Writes s (s.processFrameEvent config key frame) key
      (if frame.esv ∈ valueEsvs then frame.properties else []) := by
  unfold Manager.processFrameEvent
  by_cases hrequest : frame.esv ∈ requestEsvs
  · have hesv : frame.esv ∉ valueEsvs := by
      intro hvalue
      revert hrequest hvalue
      cases frame.esv <;> decide
    rw [if_pos hrequest,if_neg hesv]
    exact writes_nothing rfl rfl
  · rw [if_neg hrequest,hnode]
    exact writes_applyFrame config hnode frame

theorem writes_propertiesSet (hnode : s.data key = some node) (properties : List Property) (refresh : Bool)
    (result : SetRequestResult) :
    Writes s (s.propertiesSet key properties refresh result) key (acceptedOf properties result) := by
  rw [acceptedOf]
  cases hsent : result.sent with
  | false =>
    rw [propertiesSet_unsent hsent]
    exact writes_nothing rfl rfl
  | true =>
    apply writes_of_data hnode (propertiesSet_data hnode hsent)
    unfold Manager.propertiesSet
    rw [hnode]
    simp only [hsent,Bool.not_true,Bool.false_eq_true,if_false]
    rw [refreshAccepted_frame.2,notify_emitted]
    rfl

theorem finishJob_emitted (task : Nat) (worker : Option (NodeId × Nat)) :
    (s.finishJob task worker).emitted = s.emitted := by
  unfold Manager.finishJob
  cases worker <;> rfl

theorem raise_emitted (task : Nat) (worker : Option (NodeId × Nat)) (activity : Activity) (exn : Exn) :
    (s.raise task worker activity exn).emitted = s.emitted := by
  unfold Manager.raise
  split
  · unfold Manager.interrupt
    cases activity <;> cases worker <;> rfl
  · rfl
  · exact finishJob_emitted task worker

theorem writes_jobRecovered (hnode : s.data key = some node) (task : Nat) (worker : Option (NodeId × Nat))
    (properties : List Property) (reply : Reply) :
    Writes s (s.jobRecovered task worker key properties reply) key
      (Update.recovery task worker properties reply).properties := by
  unfold Manager.jobRecovered
  rw [Update.properties]
  cases Pyhems.Runtime.setProperties properties reply with
  | error exn => exact writes_nothing (raise_data ..) (raise_emitted ..)
  | ok result =>
    change Writes s _ key (acceptedOf properties result)
    rw [acceptedOf]
    unfold Manager.endRecovery
    rw [hnode]
    cases hsent : result.sent with
    | false =>
      simp only [hsent,Bool.false_eq_true,if_false]
      apply writes_nothing
      · rw [(finishJob_frame task worker).2,notify_data]
      · rw [finishJob_emitted,notify_emitted,if_pos rfl,List.append_nil]
    | true =>
      simp only [hsent,if_true]
      apply writes_of_data hnode
      · rw [(finishJob_frame task worker).2,notify_data]
        rfl
      · rw [finishJob_emitted,notify_emitted]
        rfl

theorem writes_update (config : Config) (hnode : s.data key = some node) (update : Update) :
    Writes s (s.update config key update) key update.properties := by
  cases update with
  | live frame => exact writes_processFrameEvent config hnode frame
  | deferred frame =>
    have hturn : s.applyFrames config key [frame] = s.applyFrame config key node frame := by
      rw [Manager.applyFrames,List.foldl_cons,List.foldl_nil,hnode]
    rw [Manager.update,hturn]
    exact writes_applyFrame config hnode frame
  | set properties refresh result => exact writes_propertiesSet hnode properties refresh result
  | recovery task worker properties reply => exact writes_jobRecovered hnode task worker properties reply

/-- Cache and event agree exactly if every EPC that ends with the EDT that it had was never given another
one in between. -/
theorem update_agrees_iff (config : Config) (s : Manager) (key : DeviceKey) (update : Update)
    (h : (s.data key).isSome = true) :
    Agrees s (s.update config key update) key update.properties ↔
      Settled (s.cached key) update.properties := by
  obtain ⟨node,hnode⟩ := Option.isSome_iff_exists.mp h
  exact (writes_update config hnode update).agrees_iff

/-- The loop over the deferred frames is one such update after the other. -/
theorem applyFrames_concat (config : Config) (s : Manager) (key : DeviceKey) (frames : List Frame)
    (frame : Frame) : s.applyFrames config key (frames ++ [frame]) =
      (s.applyFrames config key frames).update config key (.deferred frame) := by
  rw [Manager.applyFrames,List.foldl_append]
  rfl

/-! ### A sensor that reports its status twice -/

/-- A notification of the sensor with a status and another one after it. -/
def statusReports (status status' : UInt8) : Frame :=
  {statusNotification status with properties := [⟨0x80,[status]⟩,⟨0x80,[status']⟩]}

theorem sensor_registered :
    ∃ s : Manager, Reachable (Manager.step sensorConfig) {} s ∧ s.cached sensor 0x80 = some [0x30] := by
  have hrun : (exec (Manager.step sensorConfig) {} (sensorListed ++ sensorRegistered 0x30)).any
      (fun s => decide (s.cached sensor 0x80 = some [0x30])) = true := by decide +kernel
  obtain ⟨s,hs,hcached⟩ := (Option.any_eq_true _ _).mp hrun
  exact ⟨s,reachable_of_exec hs,of_decide_eq_true hcached⟩

theorem isSome_of_cached {epc : Epc} {edt : Bytes} (h : s.cached key epc = some edt) :
    (s.data key).isSome = true := by
  obtain ⟨node,hnode,_⟩ := Option.bind_eq_some_iff.mp h
  rw [hnode]
  rfl

theorem update_agrees_sensor : ∃ s : Manager, s.cached sensor 0x80 = some [0x30] ∧
    Agrees s (s.update sensorConfig sensor (.live (statusNotification 0x31))) sensor [⟨0x80,[0x31]⟩] := by
  obtain ⟨s,_,hcached⟩ := sensor_registered
  refine ⟨s,hcached,?_⟩
  have hsettled : Settled (s.cached sensor) [⟨0x80,[0x31]⟩] := settled_of_nodup (List.nodup_singleton _)
  exact (update_agrees_iff sensorConfig s sensor _ (isSome_of_cached hcached)).mpr hsettled

/-- The status goes off and back on within one frame: an event without a change. -/
theorem changed_back : ¬ ∀ (config : Config) (s : Manager) (key : DeviceKey) (update : Update),
    Reachable (Manager.step config) {} s → (s.data key).isSome = true →
      Agrees s (s.update config key update) key update.properties := by
  intro h
  obtain ⟨s,hreach,hcached⟩ := sensor_registered
  have hsome := isSome_of_cached hcached
  have hagrees := h sensorConfig s sensor (.live (statusReports 0x31 0x30)) hreach hsome
  obtain ⟨node,hnode⟩ := Option.isSome_iff_exists.mp hsome
  have hsettled := (writes_update sensorConfig hnode (.live (statusReports 0x31 0x30))).agrees_iff.mp hagrees
  have hsame := hsettled 0x80 hcached.symm ⟨0x80,[0x31]⟩ (List.mem_cons_self ..) rfl
  rw [hcached] at hsame
  exact absurd hsame (by decide)

end Pyhems.Device

import Pyhems.Device.Registration

/-! The announcement of device objects. Between the registration and `DeviceAdded` a setup awaits two
requests, and one that is broken off there leaves its object registered for good, unannounced. -/
namespace Pyhems.Device
open Protocol Library Pyhems.Runtime Transition

/-- Nothing is announced of an object before it is registered, nor while it is set up. -/
structure Life.Early (d : Life) : Prop where
  guarded : d.Guarded
  unregistered : d.node = none → d.announced = 0
  setup : ∀ task stage, d.setups task = some stage → d.announced = 0

variable {config : Config} {key : DeviceKey} {s : Manager}

namespace Life
variable {permits : Permits} {d d' : Life} {task : Nat} {stage : SetupStage}

theorem early_init : Early {} := ⟨guarded_init,fun _ => rfl,nofun⟩

theorem leave_idle (hd : d.Guarded) (hstage : d.setups task = some stage) (other : Nat) :
    (d.leave task).setups other = none := by
  by_cases hother : other = task
  · rw [hother]
    exact setStage_self d task none
  · exact (setStage_other d hother none).trans (hd.alone hstage hother)

/-- Nothing is announced at all. -/
theorem early_of_none (hguarded : d.Guarded) (hannounced : d.announced = 0) : d.Early :=
  ⟨hguarded,fun _ => hannounced,fun _ _ _ => hannounced⟩

/-- A setup has ended, and its object is registered. -/
theorem early_of_end (hguarded : d.Guarded) (hidle : ∀ task, d.setups task = none)
    (hnode : d.node.isSome) : d.Early := by
  refine ⟨hguarded,fun hnone => ?_,fun task stage h => ?_⟩
  · rw [hnone] at hnode
    cases hnode
  · rw [hidle task] at h
    cases h

theorem Early.congr (hd : d.Early) (hguarded : d'.Guarded) (hsetups : d'.setups = d.setups)
    (hannounced : d'.announced = d.announced) (hnode : d'.node = none → d.node = none) : d'.Early :=
  ⟨hguarded,fun h => hannounced.trans (hd.unregistered (hnode h)),
    fun task stage h => hannounced.trans (hd.setup task stage (hsetups ▸ h))⟩

theorem Early.move (hd : d.Early) (h : Move config key permits d d') : d'.Early := by
  have hguarded := hd.guarded.move h
  cases h with
  | learn | forget | read => exact hd.congr hguarded rfl rfl id
  | write | recover => exact hd.congr hguarded rfl rfl nofun
  | begin task hnode => exact early_of_none hguarded (hd.unregistered hnode)
  | select task _ _ hstage => exact early_of_none hguarded (hd.setup task _ hstage)
  | register task _ _ _ _ hstage => exact early_of_none hguarded (hd.setup task _ hstage)
  | proceed task stage _ hstage => exact early_of_none hguarded (hd.setup task _ hstage)
  | fail task stage hstage => exact early_of_none hguarded (hd.setup task _ hstage)
  | drop task stage hstage => exact early_of_none hguarded (hd.setup task _ hstage)
  | announce task stage node hstage _ hnode =>
    refine early_of_end hguarded (leave_idle hd.guarded hstage) ?_
    rw [show (d.leave task).node = some node from hnode]
    rfl
  | notified task stage node _ _ hstage => exact early_of_end hguarded (leave_idle hd.guarded hstage) rfl

/-- After the end of its setup an object that is registered was announced, and once. -/
structure Announced (d : Life) : Prop where
  early : d.Early
  idle : d.node.isSome → (∀ task, d.setups task = none) → d.announced = 1

theorem announced_init : Announced {} := ⟨early_init,nofun⟩

/-- A setup is in progress after the move. -/
theorem announced_of_setup (hearly : d.Early) (hsetup : d.setups task = some stage) : d.Announced := by
  refine ⟨hearly,fun _ hidle => ?_⟩
  rw [hidle task] at hsetup
  cases hsetup

theorem Announced.move (hd : d.Announced) (h : Move config key .unbroken d d') : d'.Announced := by
  have hearly := hd.early.move h
  cases h with
  | learn | forget | read => exact ⟨hearly,hd.idle⟩
  | write node _ hnode => exact ⟨hearly,fun _ => hd.idle (by rw [hnode]; rfl)⟩
  | recover node _ hnode => exact ⟨hearly,fun _ => hd.idle (by rw [hnode]; rfl)⟩
  | begin task => exact announced_of_setup hearly (setStage_self d task _)
  | select task => exact announced_of_setup hearly (setStage_self d task _)
  | register task => exact announced_of_setup hearly (setStage_self d task _)
  | proceed task => exact announced_of_setup hearly (setStage_self d task _)
  | announce task stage _ hstage =>
    refine ⟨hearly,fun _ _ => ?_⟩
    rw [hd.early.setup task stage hstage]
  | notified task stage _ _ _ hstage =>
    refine ⟨hearly,fun _ _ => ?_⟩
    rw [hd.early.setup task stage hstage]
  | fail task stage hstage hregistered =>
    refine ⟨hearly,fun hnode => ?_⟩
    rw [show (d.leave task).node = none from hd.early.guarded.unregistered hstage hregistered] at hnode
    cases hnode
  | drop task stage hstage hregistered hbroken => exact hbroken.elim

end Life

/-- The object is in the data exactly if it was announced, and it was announced once then. -/
def Manager.AnnouncedOnce (s : Manager) (key : DeviceKey) : Prop :=
  ((s.data key).isSome ↔ DeviceEvent.deviceAdded key ∈ s.emitted) ∧
    (DeviceEvent.deviceAdded key ∈ s.emitted → s.emitted.count (.deviceAdded key) = 1)

/-- In every run that breaks no setup off past its registration, the objects in the data are those
that were announced, each once, as soon as their setups are over. -/
theorem announced_once
    (h : Reaches (Manager.step config) (fun s event => s.breaks event = false) {} s)
    (hidle : ¬ s.SettingUp key) : s.AnnouncedOnce key := by
  have hlife := life_invariant_unbroken key Life.announced_init (fun _ _ hd hmove => hd.move hmove) h
  have hcount : s.emitted.count (.deviceAdded key) = if (s.data key).isSome then 1 else 0 := by
    split
    · next hnode => exact hlife.idle hnode (life_idle hidle)
    · next hnode => exact hlife.early.unregistered (Option.not_isSome_iff_eq_none.mp hnode)
  refine ⟨?_,fun hmem => ?_⟩
  · rw [← List.count_pos_iff,hcount]
    split_ifs with hnode <;> simp [hnode]
  · have hpos := List.count_pos_iff.mpr hmem
    rw [hcount] at hpos ⊢
    split at hpos
    · next hnode => rw [if_pos hnode]
    · exact absurd hpos (Nat.lt_irrefl 0)

/-- The sensor answers its INF_REQ. -/
theorem announced_once_sensor : ∃ s : Manager, (s.data sensor).isSome ∧ s.AnnouncedOnce sensor := by
  have hrun : (exec (fun s event => if !s.breaks event then Manager.step sensorConfig s event else none) {}
      (sensorListed ++ sensorRegistered 0x30 ++
        [.resume 1 (.reply (some (.ok (true,some (statusNotification 0x30)))))])).any
      (fun s => decide ((s.data sensor).isSome ∧ ¬ s.SettingUp sensor)) = true := by decide +kernel
  obtain ⟨s,hs,hcheck⟩ := (Option.any_eq_true _ _).mp hrun
  obtain ⟨hdata,hidle⟩ := of_decide_eq_true hcheck
  have hreach := reaches_of_checked (fun s event => Manager.breaks s event = false)
    (fun _ _ hcheck => Bool.not_eq_true' _ |>.mp hcheck) hs
  exact ⟨s,hdata,announced_once hreach hidle⟩

/-- `async_stop` while the INF_REQ of the sensor is awaited: the sensor stays in the data and is
never announced. -/
theorem registered_unannounced : ¬ ∀ s, Reachable (Manager.step sensorConfig) {} s →
    ∀ key, ¬ s.SettingUp key → s.AnnouncedOnce key := by
  intro h
  have hrun : (exec (Manager.step sensorConfig) {} (sensorListed ++ sensorRegistered 0x30 ++
      [.stop,.resume 1 .woken,.stopResumes,.resume 0 .woken,.stopResumes])).any
      (fun s => decide (¬ s.SettingUp sensor ∧ (s.data sensor).isSome ∧
        DeviceEvent.deviceAdded sensor ∉ s.emitted)) = true := by decide +kernel
  obtain ⟨s,hs,hcheck⟩ := (Option.any_eq_true _ _).mp hrun
  obtain ⟨hidle,hdata,hemitted⟩ := of_decide_eq_true hcheck
  exact hemitted ((h s (reachable_of_exec hs) sensor hidle).1.mp hdata)

end Pyhems.Device

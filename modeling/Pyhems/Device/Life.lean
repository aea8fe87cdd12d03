import Pyhems.Device.Manager
import Pyhems.Library.Simulation

/-! The life of one device object, apart from everything else that a manager does: who sets it up
and how far, what was read of it, its state once it is registered, and what was sent for it. -/
namespace Pyhems.Device
open Protocol Library Pyhems.Runtime
open Get (Epc)

def SetupStage.isRegistered : SetupStage → Bool
  | .manufacturerCode => false
  | .properties _ _ => false
  | _ => true

/-- `setups` gives the stage of every task that sets the object up. `identified`, `remembered` and
`reads` are the EDTs of 0x8A, the code that the client keeps, and the answers to setup reads;
`recoveries` and `infAnswers` are the SetCs of range recoveries and the answers to INF_REQ. -/
@[ext] structure Life where
  node : Option NodeState := none
  setups : Nat → Option SetupStage := fun _ => none
  pending : Bool := false
  announced : Nat := 0
  identified : List Bytes := []
  remembered : Option Nat := none
  reads : List (List Property) := []
  recoveries : List (List Property) := []
  infAnswers : List Frame := []

/-- What a step may do to an object: break its setup off past the registration, and look at its
ranges. -/
structure Permits where
  breaks : Prop
  recovers : DeviceKey → Prop

def Permits.all : Permits := ⟨True,fun _ => True⟩

def Permits.unbroken : Permits := ⟨False,fun _ => True⟩

namespace Life

def setStage (d : Life) (task : Nat) (stage : Option SetupStage) : Life :=
  {d with setups := Function.update d.setups task stage}

theorem setStage_self (d : Life) (task : Nat) (stage : Option SetupStage) :
    (d.setStage task stage).setups task = stage := Function.update_self ..

theorem setStage_other (d : Life) {task other : Nat} (h : other ≠ task) (stage : Option SetupStage) :
    (d.setStage task stage).setups other = d.setups other := Function.update_of_ne h ..

/-- A setup is over. -/
def leave (d : Life) (task : Nat) : Life := {d.setStage task none with pending := false}

/-- What can happen to an object. -/
inductive Move (config : Config) (key : DeviceKey) (permits : Permits) : Life → Life → Prop where
  | learn (d) (edt : Bytes) (h : 3 ≤ edt.length) : Move config key permits d
      {d with identified := d.identified ++ [edt], remembered := some (fromBytes (edt.take 3))}
  | forget (d) : Move config key permits d {d with remembered := none}
  | begin (d) (task : Nat) (hnode : d.node = none) (hpending : d.pending = false) :
      Move config key permits d {d.setStage task (some .manufacturerCode) with pending := true}
  | select (d) (task code : Nat) (initial : Finset Epc) (hstage : d.setups task = some .manufacturerCode)
      (hcode : d.remembered = some code) :
      Move config key permits d (d.setStage task (some (.properties code initial)))
  | read (d) (props : List Property) : Move config key permits d {d with reads := d.reads ++ [props]}
  | register (d) (task code : Nat) (initial : Finset Epc) (props : List Property) (node : NodeState)
      (hstage : d.setups task = some (.properties code initial)) (hread : props ∈ d.reads)
      (hnode : setupNode config key code initial props = .ok (some node)) :
      Move config key permits d {d.setStage task (some .registered) with node := some node}
  | write (d) (node : NodeState) (properties : Values) (hnode : d.node = some node) :
      Move config key permits d {d with node := some {node with properties}}
  | recover (d) (node : NodeState) (properties : List Property) (hnode : d.node = some node)
      (hproperties : properties =
        collectionRangeRecoveryProperties (config.bindings.get key.2.classCode) node)
      (hrecovers : permits.recovers key) :
      Move config key permits d
        {d with node := some {node with
                  rangeRecoveryAttemptedEpcs := node.rangeRecoveryAttemptedEpcs ∪ epcsOf properties},
                recoveries := d.recoveries ++ [properties]}
  | proceed (d) (task : Nat) (stage stage' : SetupStage) (hstage : d.setups task = some stage)
      (hregistered : stage.isRegistered = true) (hregistered' : stage'.isRegistered = true) :
      Move config key permits d (d.setStage task (some stage'))
  | announce (d) (task : Nat) (stage : SetupStage) (node : NodeState)
      (hstage : d.setups task = some stage) (hregistered : stage.isRegistered = true)
      (hnode : d.node = some node) (hinf : node.infRequestEpcs = ∅) :
      Move config key permits d {d.leave task with announced := d.announced+1}
  | notified (d) (task : Nat) (stage : SetupStage) (node : NodeState) (reply : Reply)
      (result : InfRequestResult) (hstage : d.setups task = some stage)
      (hregistered : stage.isRegistered = true) (hnode : d.node = some node)
      (hresult : requestNotifications (sorted node.infRequestEpcs) reply = .ok result) :
      Move config key permits d {d.leave task with
        node := some (node.notified result), announced := d.announced+1,
        infAnswers := d.infAnswers ++ reply.frame.toList}
  | fail (d) (task : Nat) (stage : SetupStage) (hstage : d.setups task = some stage)
      (hregistered : stage.isRegistered = false) : Move config key permits d (d.leave task)
  | drop (d) (task : Nat) (stage : SetupStage) (hstage : d.setups task = some stage)
      (hregistered : stage.isRegistered = true) (hbreaks : permits.breaks) :
      Move config key permits d (d.leave task)

theorem Move.mono {config : Config} {key : DeviceKey} {permits permits' : Permits} {d d' : Life}
    (hbreaks : permits.breaks → permits'.breaks) (hrecovers : permits.recovers key → permits'.recovers key)
    (h : Move config key permits d d') : Move config key permits' d d' := by
  cases h with
  | learn edt hedt => exact .learn d edt hedt
  | forget => exact .forget d
  | begin task hnode hpending => exact .begin d task hnode hpending
  | select task code initial hstage hcode => exact .select d task code initial hstage hcode
  | read props => exact .read d props
  | register task code initial props node hstage hread hnode =>
    exact .register d task code initial props node hstage hread hnode
  | write node properties hnode => exact .write d node properties hnode
  | recover node properties hnode hproperties hr =>
    exact .recover d node properties hnode hproperties (hrecovers hr)
  | proceed task stage stage' hstage hregistered hregistered' =>
    exact .proceed d task stage stage' hstage hregistered hregistered'
  | announce task stage node hstage hregistered hnode hinf =>
    exact .announce d task stage node hstage hregistered hnode hinf
  | notified task stage node reply result hstage hregistered hnode hresult =>
    exact .notified d task stage node reply result hstage hregistered hnode hresult
  | fail task stage hstage hregistered => exact .fail d task stage hstage hregistered
  | drop task stage hstage hregistered hb => exact .drop d task stage hstage hregistered (hbreaks hb)

/-! ### Setups -/

/-- At most one task sets the object up, as the guard set says, and the object is registered from
the registration on and never before. -/
structure Guarded (d : Life) : Prop where
  pending : d.pending = true ↔ ∃ task stage, d.setups task = some stage
  single : ∀ task task' stage stage', d.setups task = some stage → d.setups task' = some stage' →
    task = task'
  registered : ∀ task stage, d.setups task = some stage → (d.node.isSome ↔ stage.isRegistered = true)

variable {config : Config} {key : DeviceKey} {permits : Permits} {d d' : Life} {task : Nat}
  {stage : SetupStage}

theorem guarded_init : Guarded {} := ⟨by simp,by simp,by simp⟩

theorem Guarded.free (hd : d.Guarded) (hpending : d.pending = false) (task : Nat) :
    d.setups task = none := by
  by_contra hsome
  obtain ⟨stage,hstage⟩ := Option.ne_none_iff_exists'.mp hsome
  rw [hd.pending.mpr ⟨task,stage,hstage⟩] at hpending
  cases hpending

theorem Guarded.alone (hd : d.Guarded) (hstage : d.setups task = some stage) {other : Nat}
    (hother : other ≠ task) : d.setups other = none := by
  by_contra hsome
  obtain ⟨stage',hstage'⟩ := Option.ne_none_iff_exists'.mp hsome
  exact hother (hd.single other task stage' stage hstage' hstage)

/-- Before its registration the object is not in the data. -/
theorem Guarded.unregistered (hd : d.Guarded) (hstage : d.setups task = some stage)
    (hregistered : stage.isRegistered = false) : d.node = none := by
  rw [← Option.not_isSome_iff_eq_none,hd.registered task stage hstage,hregistered]
  exact Bool.false_ne_true

/-- One task sets the object up. -/
theorem guarded_of_one (hsetups : d'.setups = Function.update d.setups task (some stage))
    (hother : ∀ other, other ≠ task → d.setups other = none) (hpending : d'.pending = true)
    (hnode : d'.node.isSome ↔ stage.isRegistered = true) : d'.Guarded := by
  have hself : d'.setups task = some stage := by rw [hsetups,Function.update_self]
  have honly : ∀ a other, d'.setups a = some other → a = task ∧ other = stage := by
    intro a other ha
    by_cases hat : a = task
    · rw [hat,hself] at ha
      exact ⟨hat,(Option.some.inj ha).symm⟩
    · rw [hsetups,Function.update_of_ne hat,hother a hat] at ha
      cases ha
  refine ⟨⟨fun _ => ⟨task,stage,hself⟩,fun _ => hpending⟩,fun a b _ _ ha hb => ?_,fun a other ha => ?_⟩
  · rw [(honly a _ ha).1,(honly b _ hb).1]
  · rw [(honly a other ha).2]
    exact hnode

/-- No task sets the object up any more. -/
theorem Guarded.leave (hd : d.Guarded) (hstage : d.setups task = some stage)
    (hsetups : d'.setups = Function.update d.setups task none) (hpending : d'.pending = false) :
    d'.Guarded := by
  have hnone : ∀ a, d'.setups a = none := by
    intro a
    rw [hsetups]
    by_cases hat : a = task
    · rw [hat,Function.update_self]
    · rw [Function.update_of_ne hat,hd.alone hstage hat]
  refine ⟨?_,fun a _ _ _ ha => ?_,fun a _ ha => ?_⟩
  · rw [hpending]
    simp [hnone]
  · rw [hnone a] at ha
    cases ha
  · rw [hnone a] at ha
    cases ha

theorem Guarded.congr (hd : d.Guarded) (hsetups : d'.setups = d.setups)
    (hpending : d'.pending = d.pending) (hnode : d'.node.isSome = d.node.isSome) : d'.Guarded :=
  ⟨by rw [hsetups,hpending]; exact hd.pending,by rw [hsetups]; exact hd.single,
    by rw [hsetups,hnode]; exact hd.registered⟩

theorem Guarded.move (hd : d.Guarded) (h : Move config key permits d d') : d'.Guarded := by
  cases h with
  | learn | forget | read => exact hd.congr rfl rfl rfl
  | write node _ hnode =>
    refine hd.congr rfl rfl ?_
    rw [hnode]
    rfl
  | recover node _ hnode =>
    refine hd.congr rfl rfl ?_
    rw [hnode]
    rfl
  | begin task hnode hpending =>
    refine guarded_of_one rfl (fun other _ => hd.free hpending other) rfl ?_
    simp [setStage,hnode,SetupStage.isRegistered]
  | select task code initial hstage =>
    refine guarded_of_one rfl (fun other => hd.alone hstage) (hd.pending.mpr ⟨_,_,hstage⟩) ?_
    exact hd.registered _ .manufacturerCode hstage
  | register task code initial props node hstage =>
    exact guarded_of_one rfl (fun other => hd.alone hstage) (hd.pending.mpr ⟨_,_,hstage⟩)
      ⟨fun _ => rfl,fun _ => rfl⟩
  | proceed task stage stage' hstage hregistered hregistered' =>
    refine guarded_of_one rfl (fun other => hd.alone hstage) (hd.pending.mpr ⟨_,_,hstage⟩) ?_
    exact (hd.registered _ _ hstage).trans (by rw [hregistered,hregistered'])
  | announce task stage _ hstage => exact hd.leave hstage rfl rfl
  | notified task stage _ _ _ hstage => exact hd.leave hstage rfl rfl
  | fail task stage hstage => exact hd.leave hstage rfl rfl
  | drop task stage hstage => exact hd.leave hstage rfl rfl

end Life

end Pyhems.Device

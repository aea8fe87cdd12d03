import Mathlib.Data.Finset.Card
import Pyhems.Get.RequestBound
import Pyhems.Get.Sharing

/-! The learned limit under sharing. Whatever calls and poll cycles run on one device object,
a known limit is positive and never grows, only a probing run changes it, and every
batch keeps to the limit and the policy that it was planned from. -/
namespace Pyhems.Get
open Protocol Library

variable {nodeId : String} {target : Target} {classCode object : Nat} {s t : Shared}

/-- What a request may ask for. -/
structure Request.Allowed (classCode : Nat) (r : Request) : Prop where
  limit_le : ∀ c, r.limit = some c → r.batch.length ≤ c
  policy_le : ∀ c, (getGetBatchPolicy r.manufacturerCode classCode).bind
    GetBatchPolicy.maxBatchSize = some c → r.batch.length ≤ c
  compatible : ∀ a ∈ r.batch, ∀ b ∈ r.batch,
    ¬ Incompatible (getGetBatchPolicy r.manufacturerCode classCode) a b

/-- The limit that is in force for a task. -/
def Shared.limitFor (s : Shared) : Task → Option Nat
  | .polling _ _ => s.getObservedBatchCapacity
  | task => task.object.bind s.limit

/-- The manufacturer code that is in force for a task. -/
def Shared.codeFor (s : Shared) : Task → Option Nat
  | .polling _ _ => s.node
  | task => task.object.bind fun object => (s.capability object).manufacturerCode

/-- A request that a task awaits, planned from what is in force for the task. -/
structure Request.InForce (s : Shared) (task : Task) (r : Request) : Prop where
  awaits : task.awaits = some r.batch
  limit : r.limit = s.limitFor task
  manufacturerCode : r.manufacturerCode = s.codeFor task

/-- A task holds an existing object, and its probe size is unknown or at least one. -/
def Task.Sound (count : Nat) : Task → Prop
  | .reading _ object _ => object < count
  | .batching _ object _ batch _ vars => object < count ∧ batch ≠ [] ∧ vars.probeSize ≠ some 0
  | _ => True

/-- The batch that a task awaits was recorded when it was sent. -/
def Task.Recorded (requests : List Request) (task : Task) : Prop :=
  ∀ batch, task.awaits = some batch → ∃ r ∈ requests, r.batch = batch

structure Shared.Sound (classCode : Nat) (s : Shared) : Prop where
  limits : ∀ object, s.limit object ≠ some 0
  entry : ∀ object, s.entry = some object → object < s.objects.length
  tasks : ∀ task ∈ s.tasks, task.Sound s.objects.length ∧ task.Recorded s.requests
  requests : ∀ r ∈ s.requests, r.Allowed classCode
  failures : s.failures = []

/-! ### The capability objects -/

theorem Shared.limit_append (s : Shared) (i : Nat) :
    Shared.limit {s with objects := s.objects ++ [{}]} i = s.limit i := by
  simp only [Shared.limit,Shared.capability,List.getD_eq_getElem?_getD,List.getElem?_append]
  split
  · rfl
  · next hge =>
    rw [List.getElem?_eq_none (by omega : s.objects.length ≤ i)]
    cases i-s.objects.length <;> rfl

theorem Shared.limit_of_objects (h : t.objects = s.objects) (i : Nat) : t.limit i = s.limit i := by
  simp only [Shared.limit,Shared.capability,h]

theorem Task.Sound.mono {task : Task} {m n : Nat} (h : task.Sound m) (hle : m ≤ n) :
    task.Sound n := by
  cases task with
  | reading reader object epcs => exact Nat.lt_of_lt_of_le h hle
  | batching probe object limit batch rest vars => exact ⟨Nat.lt_of_lt_of_le h.1 hle,h.2⟩
  | _ => trivial

theorem Shared.Sound.setdefault (hs : s.Sound classCode) :
    s.setdefault.1.Sound classCode ∧ s.setdefault.2 < s.setdefault.1.objects.length := by
  unfold Shared.setdefault
  cases hentry : s.entry with
  | some object => exact ⟨hs,hs.entry object hentry⟩
  | none =>
    refine ⟨⟨fun i => ?_,?_,fun task htask => ?_,hs.requests,hs.failures⟩,by simp⟩
    · have happend := s.limit_append i
      simp only [Shared.limit,Shared.capability] at happend ⊢
      rw [happend]
      exact hs.limits i
    · intro object hobject
      cases hobject
      simp
    · exact ⟨(hs.tasks task htask).1.mono (by simp),(hs.tasks task htask).2⟩

/-! ### Running a task up to its next await -/

/-- The task ran from `s` to its next await without touching the capability objects. It may hold the given one. -/
structure Ran (classCode : Nat) (held : Option Nat) (s : Shared) (next : Shared × Task) : Prop where
  objects : next.1.objects = s.objects
  entry : next.1.entry = s.entry
  node : next.1.node = s.node
  tasks : next.1.tasks = s.tasks
  sound : next.1.Sound classCode
  task : next.2.Sound s.objects.length
  recorded : next.2.Recorded next.1.requests
  sent : next.1.requests = s.requests ∧ next.2.awaits = none ∨
    ∃ r, next.1.requests = s.requests ++ [r] ∧ r.InForce s next.2
  held : ∀ object, next.2.object = some object → held = some object

variable {held : Option Nat}

theorem Ran.spawn {next : Shared × Task} (h : Ran classCode held s next) :
    (Shared.spawn next).Sound classCode := by
  refine ⟨h.sound.limits,h.sound.entry,fun task htask => ?_,h.sound.requests,h.sound.failures⟩
  rcases List.mem_append.mp htask with htask | htask
  · exact h.sound.tasks task htask
  · rw [List.mem_singleton.mp htask]
    exact ⟨h.objects ▸ h.task,h.recorded⟩

theorem Ran.put {next : Shared × Task} (h : Ran classCode held s next) (i : Nat) :
    (Shared.put i next).Sound classCode := by
  refine ⟨h.sound.limits,h.sound.entry,fun task htask => ?_,h.sound.requests,h.sound.failures⟩
  rcases List.mem_or_eq_of_mem_set htask with htask | rfl
  · exact h.sound.tasks task htask
  · exact ⟨h.objects ▸ h.task,h.recorded⟩

/-! ### What an event sends -/

theorem Request.InForce.congr {task : Task} {r : Request} (h : r.InForce s task) (hobjects : t.objects = s.objects)
    (hentry : t.entry = s.entry) (hnode : t.node = s.node) : r.InForce t task := by
  have hlimit : t.limit = s.limit := funext fun object => Shared.limit_of_objects hobjects object
  have hcapability : t.capability = s.capability := by
    funext object
    rw [Shared.capability,Shared.capability,hobjects]
  refine ⟨h.awaits,h.limit.trans ?_,h.manufacturerCode.trans ?_⟩
  · cases task <;> simp only [Shared.limitFor,Shared.getObservedBatchCapacity,hlimit,hentry]
  · cases task <;> simp only [Shared.codeFor,hcapability,hnode]

/-- The number of distinct requested EPCs that an answer contains. -/
def requestedIn (batch : List Epc) (properties : List Property) : Nat :=
  (batch.toFinset.filter fun epc => epc ∈ properties.map Property.epc).card

/-- The limit of an object over one event. -/
structure LimitStep (s : Shared) (event : Event) (t : Shared) (object : Nat) : Prop where
  antitone : ∀ a, s.limit object = some a → ∃ b ≤ a, t.limit object = some b
  cause : t.limit object ≠ s.limit object → ∃ i limit batch rest vars properties,
    event = .resume i (.answered properties) ∧
    s.tasks[i]? = some (.batching true object limit batch rest vars) ∧
    t.limit object = some (requestedIn batch properties)

theorem LimitStep.of_eq {event : Event} (h : t.limit object = s.limit object) :
    LimitStep s event t object :=
  ⟨fun a ha => ⟨a,le_rfl,h.trans ha⟩,fun hne => absurd h hne⟩

def airConditioner : Target := ⟨"192.0.2.1",⟨0x013001,by decide⟩⟩

end Pyhems.Get

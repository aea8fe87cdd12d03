import Mathlib.Logic.Function.Basic
import Pyhems.Library.Transition
import Pyhems.Runtime.NodeRequestQueue

/-! Tasks that share one request queue. A task that was granted the slot owns it before its
code resumes, and a cancellation can reach it there; the queue still never has two
owners and hands over to the first live waiter. -/
namespace Pyhems.Runtime
open Protocol Library

/-- A task suspended in `acquire`, between `acquire` and `release`, or past both.
`mustCancel` is a cancellation that found the future already done. -/
inductive Stage where
  | waiting (future : Future Unit) (mustCancel : Bool)
  | holding
  | finished
  deriving DecidableEq, Repr

structure Acquirer where
  priority : RequestPriority
  stage : Stage
  deriving DecidableEq, Repr

/-- One queue and its tasks, numbered in the order of their `acquire` calls. -/
structure Slot where
  queue : NodeRequestQueue := {}
  tasks : Nat → Option Acquirer := fun _ => none
  count : Nat := 0

inductive SlotEvent where
  | acquire (priority : RequestPriority)
  | resume (task : Nat)
  | cancel (task : Nat)
  | release (task : Nat)
  deriving DecidableEq, Repr

/-- The task waits and its future is pending. -/
def Stage.Live : Stage → Prop
  | .waiting .pending _ => True
  | _ => False

/-- The task holds the slot, or the slot was handed to its future. -/
def Stage.Owns : Stage → Prop
  | .waiting (.result _) _ => True
  | .holding => True
  | _ => False

/-- The task was cancelled and has not resumed yet. -/
def Stage.CancelRequested : Stage → Prop
  | .waiting .pending _ => False
  | .waiting .cancelled _ => True
  | .waiting _ mustCancel => mustCancel = true
  | _ => False

namespace Slot

def put (s : Slot) (task : Nat) (stage : Stage) : Slot :=
  {s with tasks := Function.update s.tasks task ((s.tasks task).map fun a => {a with stage})}

/-- `future.done()` of the task's entry in the heap. -/
def done (s : Slot) (task : Nat) : Bool :=
  match s.tasks task with
  | some ⟨_,.waiting future _⟩ => future.done
  | _ => true

/-- `future.set_result(None)` for the task that a release chose. -/
def grant (s : Slot) : Option Nat → Slot
  | none => s
  | some task =>
    match s.tasks task with
    | some ⟨_,.waiting .pending mustCancel⟩ => s.put task (.waiting (.result ()) mustCancel)
    | _ => s

/-- `release` with its effect on the chosen future. -/
def release (s : Slot) : Slot :=
  let (queue,granted) := s.queue.release s.done
  {s with queue}.grant granted

def step (s : Slot) : SlotEvent → Option Slot
  | .acquire priority =>
    let (queue,direct) := s.queue.acquire priority s.count
    let stage := if direct then Stage.holding else .waiting .pending false
    some ⟨queue,Function.update s.tasks s.count (some ⟨priority,stage⟩),s.count+1⟩
  | .resume task =>
    match s.tasks task with
    | some ⟨_,.waiting future mustCancel⟩ =>
      match future with
      | .pending => none
      | .cancelled => some (s.put task .finished)
      | .result _ =>
        -- A cancelled task gives the slot back before it raises.
        if mustCancel then some (s.put task .finished).release else some (s.put task .holding)
      | .exception _ =>
        if mustCancel then some (s.put task .finished).release else some (s.put task .finished)
    | _ => none
  | .cancel task =>
    match s.tasks task with
    | some ⟨_,.waiting .pending mustCancel⟩ => some (s.put task (.waiting .cancelled mustCancel))
    | some ⟨_,.waiting future _⟩ => some (s.put task (.waiting future true))
    | _ => none
  | .release task =>
    match s.tasks task with
    | some ⟨_,.holding⟩ => some (s.put task .finished).release
    | _ => none

/-- The task exists and its stage has the property. -/
def At (s : Slot) (P : Stage → Prop) (task : Nat) : Prop :=
  ∃ a, s.tasks task = some a ∧ P a.stage

def Live (s : Slot) : Nat → Prop := s.At Stage.Live

def Owns (s : Slot) : Nat → Prop := s.At Stage.Owns

/-- The task comes before the other: a lower priority value, or the same one and an earlier
`acquire`. -/
def Before (s : Slot) (g r : Nat) : Prop :=
  ∃ a b, s.tasks g = some a ∧ s.tasks r = some b ∧
    (a.priority.value < b.priority.value ∨ a.priority.value = b.priority.value ∧ g ≤ r)

end Slot

variable {s t : Slot} {task : Nat} {a : Acquirer} {stage : Stage} {P : Stage → Prop}

/-! ### Reading a state after an update -/

theorem Slot.at_put (h : s.tasks task = some a) (x : Nat) :
    (s.put task stage).At P x ↔ if x = task then P stage else s.At P x := by
  unfold Slot.At Slot.put
  by_cases hx : x = task
  · subst hx
    simp [h]
  · simp [hx]

theorem Slot.at_iff (h : s.tasks task = some a) : s.At P task ↔ P a.stage := by
  unfold Slot.At
  simp [h]

theorem Slot.done_eq_false_iff : s.done task = false ↔ s.Live task := by
  unfold Slot.done Slot.Live Slot.At
  cases h : s.tasks task with
  | none => simp
  | some a =>
    obtain ⟨priority,stage⟩ := a
    cases stage with
    | waiting future mustCancel => cases future <;> simp [Future.done,Stage.Live]
    | _ => simp [Stage.Live]

theorem Slot.put_priority (x : Nat) :
    ((s.put task stage).tasks x).map Acquirer.priority = (s.tasks x).map Acquirer.priority := by
  unfold Slot.put
  by_cases hx : x = task
  · subst hx
    cases s.tasks x <;> simp
  · simp [hx]

/-! ### The invariant -/

/-- No `exception` is ever set on a waiting future of this system. -/
def Stage.Failed : Stage → Prop
  | .waiting (.exception _) _ => True
  | _ => False

/-- The entries of the heap belong to the tasks that filed them, in the order of arrival. -/
structure Slot.Filed (s : Slot) : Prop where
  filed : ∀ w ∈ s.queue.waiters, (s.tasks w.request).map Acquirer.priority = some w.priority
  arrival : ∀ v ∈ s.queue.waiters, ∀ w ∈ s.queue.waiters, v.request < w.request →
    v.sequence < w.sequence
  fresh : ∀ x, s.count ≤ x → s.tasks x = none

structure Slot.Inv (s : Slot) : Prop where
  coherent : Coherent s.queue s.Live s.Owns
  filed : s.Filed
  unfailed : ∀ x, ¬ s.At Stage.Failed x

theorem Slot.Filed.put (h : s.Filed) (stage : Stage) (htask : s.tasks task = some a) :
    (s.put task stage).Filed := by
  refine ⟨fun w hw => by rw [Slot.put_priority]; exact h.filed w hw,h.arrival,fun x hx => ?_⟩
  have hne : x ≠ task := by
    rintro rfl
    rw [h.fresh x hx] at htask
    cases htask
  exact (Function.update_of_ne hne _ _).trans (h.fresh x hx)

theorem Slot.Filed.shrink (h : s.Filed) (queue : NodeRequestQueue)
    (hsub : ∀ w ∈ queue.waiters, w ∈ s.queue.waiters) : Slot.Filed {s with queue} :=
  ⟨fun w hw => h.filed w (hsub w hw),fun v hv w hw => h.arrival v (hsub v hv) w (hsub w hw),h.fresh⟩

/-- Heap order is the order of the claim: priority first, then arrival. -/
theorem Slot.Filed.before (h : s.Filed) {w v : Waiter} (hw : w ∈ s.queue.waiters)
    (hv : v ∈ s.queue.waiters) (hle : w.key ≤ v.key) : s.Before w.request v.request := by
  obtain ⟨a,ha,hap⟩ := Option.map_eq_some_iff.mp (h.filed w hw)
  obtain ⟨b,hb,hbp⟩ := Option.map_eq_some_iff.mp (h.filed v hv)
  refine ⟨a,b,ha,hb,?_⟩
  rw [hap,hbp]
  rcases Prod.Lex.toLex_le_toLex.mp hle with hlt | ⟨heq,hseq⟩
  · exact Or.inl hlt
  · refine Or.inr ⟨heq,?_⟩
    by_contra hnot
    exact absurd (h.arrival v hv w hw (by omega)) (by simpa using hseq)

theorem release_waiters {q : NodeRequestQueue} {done : Nat → Bool} :
    ∀ w ∈ (q.release done).1.waiters, w ∈ q.waiters := by
  intro w hw
  unfold NodeRequestQueue.release at hw
  split at hw
  · next popped rest hpop =>
    exact SkipQueue.mem_of_pop hpop hw
  · cases hw

/-- What a release makes of a state in which `o` owned the slot: the slot goes to the first live
task, or becomes free if there is none. -/
structure HandedOver (s : Slot) (o : Nat) (t : Slot) : Prop where
  finished : t.At (· = .finished) o
  handed : ∃ granted : Option Nat,
    (∀ r, t.Live r ↔ s.Live r ∧ granted ≠ some r) ∧ (∀ r, t.Owns r ↔ granted = some r) ∧
    (∀ g, granted = some g → s.Live g ∧ ∀ r, s.Live r → s.Before g r) ∧
    (granted = none → ∀ r, ¬ s.Live r)
  others : ∀ r, r ≠ o → ¬ s.Live r → t.tasks r = s.tasks r

theorem Stage.not_live_of_owns (h : stage.Owns) : ¬ stage.Live := by
  cases stage with
  | waiting future mustCancel => cases future <;> simp_all [Stage.Owns,Stage.Live]
  | _ => simp [Stage.Live]

theorem Slot.live_inv (h : s.Live task) :
    ∃ priority mustCancel, s.tasks task = some ⟨priority,.waiting .pending mustCancel⟩ := by
  obtain ⟨⟨priority,stage⟩,ha,hlive⟩ := h
  cases stage with
  | waiting future mustCancel =>
    cases future with
    | pending => exact ⟨priority,mustCancel,ha⟩
    | _ => cases hlive
  | _ => cases hlive

/-! ### Granting -/

@[simp] theorem Slot.grant_queue (granted : Option Nat) : (s.grant granted).queue = s.queue := by
  unfold Slot.grant
  split
  · rfl
  · split <;> rfl

theorem Slot.grant_tasks {granted : Option Nat} {r : Nat} (hr : granted ≠ some r) :
    (s.grant granted).tasks r = s.tasks r := by
  unfold Slot.grant
  split
  · rfl
  · next g =>
    have hne : r ≠ g := fun h => hr (congrArg some h.symm)
    split
    · exact Function.update_of_ne hne _ _
    · rfl

theorem Slot.Filed.grant (hs : s.Filed) (granted : Option Nat) : (s.grant granted).Filed := by
  unfold Slot.grant
  split
  · exact hs
  · split
    · next htask => exact hs.put _ htask
    · exact hs

/-- A task that was granted the slot waits no longer, and the others stay as they are. -/
theorem Slot.at_grant {granted : Option Nat} (h : ∀ g, granted = some g → s.Live g) (r : Nat) :
    ∃ mustCancel, ∀ P, (s.grant granted).At P r ↔
      if granted = some r then P (.waiting (.result ()) mustCancel) else s.At P r := by
  by_cases hr : granted = some r
  · obtain ⟨priority,mustCancel,htask⟩ := Slot.live_inv (h r hr)
    refine ⟨mustCancel,fun P => ?_⟩
    have hgrant : s.grant granted = s.put r (.waiting (.result ()) mustCancel) := by
      simp only [hr,Slot.grant,htask]
    rw [hgrant,if_pos hr,Slot.at_put htask,if_pos rfl]
  · refine ⟨false,fun P => ?_⟩
    rw [if_neg hr,Slot.At,Slot.At,Slot.grant_tasks hr]

theorem Slot.live_grant {granted : Option Nat} (h : ∀ g, granted = some g → s.Live g) (r : Nat) :
    (s.grant granted).Live r ↔ s.Live r ∧ granted ≠ some r := by
  obtain ⟨mustCancel,hat⟩ := Slot.at_grant h r
  refine (hat Stage.Live).trans ?_
  by_cases hr : granted = some r
  · simp [hr,Stage.Live]
  · simp [hr,Slot.Live]

theorem Slot.owns_grant {granted : Option Nat} (h : ∀ g, granted = some g → s.Live g) (r : Nat) :
    (s.grant granted).Owns r ↔ s.Owns r ∨ granted = some r := by
  obtain ⟨mustCancel,hat⟩ := Slot.at_grant h r
  refine (hat Stage.Owns).trans ?_
  by_cases hr : granted = some r
  · simp [hr,Stage.Owns]
  · simp [hr,Slot.Owns]

theorem Slot.failed_grant {granted : Option Nat} (h : ∀ g, granted = some g → s.Live g) {r : Nat}
    (hr : (s.grant granted).At Stage.Failed r) : s.At Stage.Failed r := by
  obtain ⟨mustCancel,hat⟩ := Slot.at_grant h r
  have hr := (hat _).mp hr
  split at hr
  · cases hr
  · exact hr

/-! ### Handing over -/

/-- A release chooses the first live task. -/
theorem Slot.Inv.granted_first (hs : s.Inv) {done : Nat → Bool}
    (hdone : ∀ w ∈ s.queue.waiters, done w.request = false ↔ s.Live w.request) {g : Nat}
    (hg : (s.queue.release done).2 = some g) : s.Live g ∧ ∀ r, s.Live r → s.Before g r := by
  have hgranted := hs.coherent.release_granted hdone
  rw [hg] at hgranted
  obtain ⟨w,hw,rfl,hlive,hleast⟩ := hgranted
  refine ⟨hlive,fun r hr => ?_⟩
  obtain ⟨v,hv,rfl⟩ := hs.coherent.queued r hr
  exact hs.filed.before hw hv (hleast v hv hr)

/-- A release that chooses none leaves nobody waiting. -/
theorem Slot.Inv.granted_none (hs : s.Inv) {done : Nat → Bool}
    (hdone : ∀ w ∈ s.queue.waiters, done w.request = false ↔ s.Live w.request)
    (hnone : (s.queue.release done).2 = none) (r : Nat) : ¬ s.Live r := by
  have hgranted := hs.coherent.release_granted hdone
  rw [hnone] at hgranted
  exact hgranted r

theorem Slot.live_finished {o : Nat} (ho : s.tasks o = some a) (hown : a.stage.Owns) (r : Nat) :
    (s.put o .finished).Live r ↔ s.Live r := by
  refine (Slot.at_put ho r).trans ?_
  split
  · next he =>
    rw [he]
    exact (iff_false_left nofun).mpr fun h => Stage.not_live_of_owns hown ((Slot.at_iff ho).mp h)
  · rfl

/-- Once its owner has finished the slot has none. -/
theorem Slot.Inv.unowned_finished (hs : s.Inv) {o : Nat} (ho : s.tasks o = some a)
    (hown : a.stage.Owns) (r : Nat) : ¬ (s.put o .finished).Owns r := by
  intro h
  have h := (Slot.at_put ho r).mp h
  split at h
  · cases h
  · next hne => exact hne (hs.coherent.unique r o h ⟨a,ho,hown⟩)

/-- Giving the slot back, by the task that owns it. -/
theorem Slot.Inv.handOver (hs : s.Inv) {o : Nat} (ho : s.tasks o = some a) (hown : a.stage.Owns) :
    (s.put o .finished).release.Inv ∧ HandedOver s o (s.put o .finished).release := by
  let done := (s.put o .finished).done
  let granted := (s.queue.release done).2
  let u : Slot := {s.put o .finished with queue := (s.queue.release done).1}
  have hrelease : (s.put o .finished).release = u.grant granted := rfl
  have hdone : ∀ w ∈ s.queue.waiters, done w.request = false ↔ s.Live w.request := fun w _ =>
    Slot.done_eq_false_iff.trans (Slot.live_finished ho hown w.request)
  have hlive : ∀ r, u.Live r ↔ s.Live r := Slot.live_finished ho hown
  have hfirst : ∀ g, granted = some g → s.Live g ∧ ∀ r, s.Live r → s.Before g r := fun _ =>
    hs.granted_first hdone
  have hgranted : ∀ g, granted = some g → u.Live g := fun g hg => (hlive g).mpr (hfirst g hg).1
  have hliveAfter : ∀ r, (u.grant granted).Live r ↔ s.Live r ∧ granted ≠ some r := fun r =>
    (Slot.live_grant hgranted r).trans (and_congr_left' (hlive r))
  have hownsAfter : ∀ r, (u.grant granted).Owns r ↔ granted = some r := fun r =>
    (Slot.owns_grant hgranted r).trans (or_iff_right (hs.unowned_finished ho hown r))
  have hgone : ∀ r, ¬ (s.Owns r ∧ r ≠ o) := fun r h =>
    h.2 (hs.coherent.unique r o h.1 ⟨a,ho,hown⟩)
  have hother : granted ≠ some o := fun h =>
    Stage.not_live_of_owns hown ((Slot.at_iff ho).mp (hfirst o h).1)
  rw [hrelease]
  refine ⟨⟨?_,?_,fun r hr => ?_⟩,?_,⟨granted,hliveAfter,hownsAfter,hfirst,fun hnone => ?_⟩,
    fun r hr hdead => ?_⟩
  · rw [Slot.grant_queue]
    exact hs.coherent.release _ _ ⟨a,ho,hown⟩ hdone (fun r => (hliveAfter r).mp)
      fun r => (hownsAfter r).trans (or_iff_right (hgone r)).symm
  · exact ((hs.filed.put .finished ho).shrink _ release_waiters).grant granted
  · have hr := (Slot.at_put ho r).mp (Slot.failed_grant hgranted hr)
    split at hr
    · cases hr
    · exact hs.unfailed r hr
  · obtain ⟨_,hat⟩ := Slot.at_grant hgranted o
    have hfinished : (s.put o .finished).At (· = .finished) o := by
      rw [Slot.at_put ho,if_pos rfl]
    rw [hat,if_neg hother]
    exact hfinished
  · exact hs.granted_none hdone hnone
  · rw [Slot.grant_tasks fun h => hdead (hfirst r h).1]
    exact Function.update_of_ne hr _ _

/-! ### The law of one event -/

/-- What one event may do to the tasks. -/
structure SlotStep (s : Slot) (event : SlotEvent) (t : Slot) : Prop where
  /-- A hand-over goes to the first live task. -/
  handOver : ∀ g, s.Live g → t.Owns g → ∀ r, s.Live r → s.Before g r
  /-- A task that did not wait takes the slot only if the queue is idle. -/
  direct : ∀ g, ¬ s.Live g → ¬ s.Owns g → t.Owns g →
    g = s.count ∧ s.queue.idle = true ∧ ∀ r, ¬ s.Live r ∧ ¬ s.Owns r
  /-- No waiting task is dropped. -/
  kept : ∀ r, s.Live r → t.Live r ∨ t.Owns r ∨ event = .cancel r
  /-- A cancelled task never goes on, and gives an owned slot to a live task if there is one. -/
  cancelled : ∀ r, s.At Stage.CancelRequested r →
    t.At Stage.CancelRequested r ∨ event = .resume r ∧ t.At (· = .finished) r ∧
      ((∃ x, s.Live x) → s.Owns r → ∃ g, s.Live g ∧ t.Owns g)

theorem Stage.not_live_of_cancelRequested (h : stage.CancelRequested) : ¬ stage.Live := by
  cases stage with
  | waiting future mustCancel => cases future <;> simp_all [Stage.CancelRequested,Stage.Live]
  | _ => simp [Stage.Live]

/-- Moving one task without handing over. -/
theorem Slot.Inv.put (hs : s.Inv) (htask : s.tasks task = some a) (hlive : stage.Live → a.stage.Live)
    (howns : stage.Owns ↔ a.stage.Owns) (hfailed : ¬ stage.Failed) : (s.put task stage).Inv := by
  refine ⟨hs.coherent.congr (fun r hr => ?_) (fun r => ?_),hs.filed.put stage htask,fun r hr => ?_⟩
  · have hr := (Slot.at_put htask r).mp hr
    split at hr
    · next he => exact he ▸ (Slot.at_iff htask).mpr (hlive hr)
    · exact hr
  · refine (Slot.at_put htask r).trans ?_
    split
    · next he => exact he ▸ howns.trans (Slot.at_iff htask).symm
    · rfl
  · have hr := (Slot.at_put htask r).mp hr
    split at hr
    · exact hfailed hr
    · exact hs.unfailed r hr

theorem slotStep_put {event : SlotEvent} (htask : s.tasks task = some a)
    (howns : stage.Owns → a.stage.Owns)
    (hkept : a.stage.Live → stage.Live ∨ stage.Owns ∨ event = .cancel task)
    (hcancelled : a.stage.CancelRequested → stage.CancelRequested ∨
      event = .resume task ∧ stage = .finished ∧ ¬ a.stage.Owns) :
    SlotStep s event (s.put task stage) := by
  have hback : ∀ r, (s.put task stage).Owns r → s.Owns r := by
    intro r hr
    have hr := (Slot.at_put htask r).mp hr
    split at hr
    · next he => exact he ▸ (Slot.at_iff htask).mpr (howns hr)
    · exact hr
  refine ⟨fun g hlive hg => ?_,fun g _ hnot hg => absurd (hback g hg) hnot,fun r hr => ?_,
    fun r hr => ?_⟩
  · obtain ⟨b,hb,hlive⟩ := hlive
    exact absurd hlive (Stage.not_live_of_owns ((Slot.at_iff hb).mp (hback g hg)))
  · by_cases he : r = task
    · subst he
      rcases hkept ((Slot.at_iff htask).mp hr) with h | h | h
      · exact Or.inl ((Slot.at_put htask r).mpr (by rwa [if_pos rfl]))
      · exact Or.inr (Or.inl ((Slot.at_put htask r).mpr (by rwa [if_pos rfl])))
      · exact Or.inr (Or.inr h)
    · exact Or.inl ((Slot.at_put htask r).mpr (by rwa [if_neg he]))
  · by_cases he : r = task
    · subst he
      rcases hcancelled ((Slot.at_iff htask).mp hr) with h | ⟨h,hfin,hnot⟩
      · exact Or.inl ((Slot.at_put htask r).mpr (by rwa [if_pos rfl]))
      · exact Or.inr ⟨h,(Slot.at_put htask r).mpr (by rwa [if_pos rfl]),
          fun _ hown => absurd ((Slot.at_iff htask).mp hown) hnot⟩
    · exact Or.inl ((Slot.at_put htask r).mpr (by rwa [if_neg he]))

theorem HandedOver.slotStep {event : SlotEvent} (ho : s.tasks task = some a) (h : HandedOver s task t)
    (hevent : a.stage.CancelRequested → event = .resume task) : SlotStep s event t := by
  obtain ⟨granted,hlive,howns,hfirst,hnone⟩ := h.handed
  refine ⟨fun g _ hg => (hfirst g ((howns g).mp hg)).2,fun g hnot _ hg =>
    absurd (hfirst g ((howns g).mp hg)).1 hnot,fun r hr => ?_,fun r hr => ?_⟩
  · by_cases he : granted = some r
    · exact Or.inr (Or.inl ((howns r).mpr he))
    · exact Or.inl ((hlive r).mpr ⟨hr,he⟩)
  · obtain ⟨b,hb,hcancelled⟩ := hr
    by_cases he : r = task
    · subst he
      rw [ho] at hb
      cases hb
      refine Or.inr ⟨hevent hcancelled,h.finished,fun ⟨x,hx⟩ _ => ?_⟩
      cases hgranted : granted with
      | none => exact absurd hx (hnone hgranted x)
      | some g => exact ⟨g,(hfirst g hgranted).1,(howns g).mpr hgranted⟩
    · have hdead : ¬ s.Live r := fun hr =>
        Stage.not_live_of_cancelRequested hcancelled ((Slot.at_iff hb).mp hr)
      exact Or.inl ⟨b,(h.others r he hdead).trans hb,hcancelled⟩

/-- A new task, with the next number. -/
theorem Slot.at_spawn (hs : s.Filed) (queue : NodeRequestQueue) (new : Acquirer) (x : Nat) :
    Slot.At ⟨queue,Function.update s.tasks s.count (some new),s.count+1⟩ P x ↔
      s.At P x ∨ x = s.count ∧ P new.stage := by
  unfold Slot.At
  by_cases hx : x = s.count
  · subst hx
    simp [hs.fresh s.count le_rfl]
  · simp [hx]

theorem Slot.Filed.spawn (hs : s.Filed) {queue : NodeRequestQueue} (new : Acquirer)
    (hfiled : ∀ w ∈ queue.waiters, w ∈ s.queue.waiters ∨
      w.request = s.count ∧ w.priority = new.priority ∧ ∀ v ∈ s.queue.waiters, v.sequence < w.sequence) :
    Slot.Filed ⟨queue,Function.update s.tasks s.count (some new),s.count+1⟩ := by
  have hold : ∀ w ∈ s.queue.waiters, w.request < s.count := by
    intro w hw
    by_contra hge
    have hmap := hs.filed w hw
    rw [hs.fresh w.request (by omega)] at hmap
    cases hmap
  refine ⟨fun w hw => ?_,fun v hv w hw hlt => ?_,fun x hx => ?_⟩
  · rcases hfiled w hw with hw | ⟨he,hp,_⟩
    · have hne : w.request ≠ s.count := (hold w hw).ne
      simpa only [Function.update_of_ne hne] using hs.filed w hw
    · simp only [he,hp,Function.update_self,Option.map_some]
  · rcases hfiled v hv with hv | ⟨hv,_,_⟩ <;> rcases hfiled w hw with hw | ⟨hw,_,hbig⟩
    · exact hs.arrival v hv w hw hlt
    · exact hbig v hv
    · have hsmall := hold w hw
      omega
    · omega
  · have hx : s.count+1 ≤ x := hx
    have hne : x ≠ s.count := by omega
    simpa only [Function.update_of_ne hne] using hs.fresh x (by omega)

theorem acquire_step (hs : s.Inv) {priority : RequestPriority}
    (h : s.step (.acquire priority) = some t) : t.Inv ∧ SlotStep s (.acquire priority) t := by
  have hcount : ∀ P, ¬ s.At P s.count := by
    rintro P ⟨a,ha,_⟩
    rw [hs.filed.fresh s.count le_rfl] at ha
    cases ha
  have hnumbers : ∀ w ∈ s.queue.waiters, w.request ≠ s.count := by
    intro w hw he
    have hmap := hs.filed.filed w hw
    rw [he,hs.filed.fresh s.count le_rfl] at hmap
    cases hmap
  cases hidle : s.queue.idle with
  | true =>
    have ht : t = ⟨(s.queue.acquire priority s.count).1,
        Function.update s.tasks s.count (some ⟨priority,.holding⟩),s.count+1⟩ := by
      simpa [Slot.step,NodeRequestQueue.acquire,hidle] using h.symm
    subst ht
    have hat := fun P x => Slot.at_spawn (P := P) hs.filed (s.queue.acquire priority s.count).1
      ⟨priority,.holding⟩ x
    obtain ⟨hnone,hfree⟩ := hs.coherent.idle hidle
    refine ⟨⟨hs.coherent.take hidle (fun r hr => ?_) (fun r => ?_),hs.filed.spawn _ (fun w hw => ?_),
      fun r hr => ?_⟩,fun g hg => absurd hg (hnone g),fun g _ hnot hg => ?_,
      fun r hr => absurd hr (hnone r),fun r hr => Or.inl ((hat _ r).mpr (Or.inl hr))⟩
    · exact ((hat _ r).mp hr).resolve_right (fun h => h.2)
    · exact (hat _ r).trans (or_congr_right (and_iff_left trivial))
    · rw [NodeRequestQueue.acquire,if_pos hidle] at hw
      exact Or.inl hw
    · exact hs.unfailed r (((hat _ r).mp hr).resolve_right (fun h => h.2))
    · exact ⟨(((hat _ g).mp hg).resolve_left hnot).1,hidle,fun r => ⟨hnone r,hfree r⟩⟩
  | false =>
    have ht : t = ⟨(s.queue.acquire priority s.count).1,
        Function.update s.tasks s.count (some ⟨priority,.waiting .pending false⟩),s.count+1⟩ := by
      simpa [Slot.step,NodeRequestQueue.acquire,hidle] using h.symm
    subst ht
    have hat := fun P x => Slot.at_spawn (P := P) hs.filed (s.queue.acquire priority s.count).1
      ⟨priority,.waiting .pending false⟩ x
    refine ⟨⟨hs.coherent.wait hidle hnumbers (fun r hr => ?_) (fun r => ?_),
      hs.filed.spawn _ (fun w hw => ?_),fun r hr => ?_⟩,fun g hg hown => ?_,fun g _ hnot hg => ?_,
      fun r hr => Or.inl ((hat _ r).mpr (Or.inl hr)),fun r hr => Or.inl ((hat _ r).mpr (Or.inl hr))⟩
    · exact ((hat _ r).mp hr).imp_right And.left
    · exact (hat _ r).trans (or_iff_left (fun h => h.2))
    · rw [NodeRequestQueue.acquire,if_neg (by simp [hidle])] at hw
      rcases SkipQueue.mem_push.mp hw with rfl | hw
      · exact Or.inr ⟨rfl,rfl,fun v hv => hs.coherent.numbered v hv⟩
      · exact Or.inl hw
    · exact hs.unfailed r (((hat _ r).mp hr).resolve_right (fun h => h.2))
    · have hown := ((hat _ g).mp hown).resolve_right (fun h => h.2)
      obtain ⟨b,hb,hlive⟩ := hg
      exact absurd hlive (Stage.not_live_of_owns ((Slot.at_iff hb).mp hown))
    · exact absurd (((hat _ g).mp hg).resolve_right (fun h => h.2)) hnot

theorem resume_step (hs : s.Inv) (h : s.step (.resume task) = some t) :
    t.Inv ∧ SlotStep s (.resume task) t := by
  simp only [Slot.step] at h
  split at h
  · next priority future mustCancel htask =>
    cases future with
    | pending => cases h
    | cancelled =>
      cases h
      exact ⟨hs.put htask nofun (iff_of_false nofun nofun) nofun,slotStep_put htask nofun nofun
        (fun _ => Or.inr ⟨rfl,rfl,nofun⟩)⟩
    | result value =>
      cases mustCancel with
      | true =>
        cases h
        obtain ⟨hinv,hhanded⟩ := hs.handOver htask trivial
        exact ⟨hinv,hhanded.slotStep htask fun _ => rfl⟩
      | false =>
        cases h
        exact ⟨hs.put htask nofun (iff_of_true trivial trivial) nofun,
          slotStep_put htask (fun _ => trivial) nofun nofun⟩
    | exception exn => exact absurd ⟨_,htask,trivial⟩ (hs.unfailed task)
  · cases h

theorem cancel_step (hs : s.Inv) (h : s.step (.cancel task) = some t) :
    t.Inv ∧ SlotStep s (.cancel task) t := by
  simp only [Slot.step] at h
  split at h
  · next priority mustCancel htask =>
    cases h
    exact ⟨hs.put htask nofun (iff_of_false nofun nofun) nofun,
      slotStep_put htask nofun (fun _ => Or.inr (Or.inr rfl)) (fun _ => Or.inl trivial)⟩
  · next priority future mustCancel hpending htask =>
    cases h
    cases future with
    | pending => exact (hpending rfl).elim
    | cancelled => exact ⟨hs.put htask nofun (iff_of_false nofun nofun) nofun,
        slotStep_put htask nofun nofun (fun _ => Or.inl trivial)⟩
    | result value => exact ⟨hs.put htask nofun (iff_of_true trivial trivial) nofun,
        slotStep_put htask (fun _ => trivial) nofun (fun _ => Or.inl rfl)⟩
    | exception exn => exact absurd ⟨_,htask,trivial⟩ (hs.unfailed task)
  · cases h

theorem release_step (hs : s.Inv) (h : s.step (.release task) = some t) :
    t.Inv ∧ SlotStep s (.release task) t := by
  simp only [Slot.step] at h
  split at h
  · next priority htask =>
    cases h
    obtain ⟨hinv,hhanded⟩ := hs.handOver htask trivial
    exact ⟨hinv,hhanded.slotStep htask nofun⟩
  · cases h

theorem Slot.Inv.step {event : SlotEvent} (hs : s.Inv) (h : s.step event = some t) :
    t.Inv ∧ SlotStep s event t := by
  cases event with
  | acquire priority => exact acquire_step hs h
  | resume task => exact resume_step hs h
  | cancel task => exact cancel_step hs h
  | release task => exact release_step hs h

theorem Slot.Inv.start : Slot.Inv {} :=
  ⟨coherent_empty (fun _ ⟨_,h,_⟩ => nomatch h) (fun _ ⟨_,h,_⟩ => nomatch h),
    ⟨by simp,by simp,fun _ _ => rfl⟩,fun _ ⟨_,h,_⟩ => nomatch h⟩

/-- The scheduling law of one queue. In every state reached by any calls, resumptions,
cancellations and releases there is at most one owner, the slot is not free while a live
task waits, and every event keeps to `SlotStep`. -/
theorem scheduling_law (s : Slot) (h : Transition.Reachable Slot.step {} s) :
    (∀ a b, s.Owns a → s.Owns b → a = b) ∧
    (∀ r, s.Live r → s.queue.busy = true ∧ ∃ o, s.Owns o) ∧
    ∀ event t, s.step event = some t → SlotStep s event t := by
  have hs : s.Inv := h.invariant .start fun _ _ _ hs _ ht => (hs.step ht).1
  refine ⟨hs.coherent.unique,fun r hr => ?_,fun _ _ ht => (hs.step ht).2⟩
  have howner := hs.coherent.exists_owner hr
  exact ⟨hs.coherent.owner.mpr howner,howner⟩

/-- A SetC overtakes a poll, is cancelled after the slot was handed to it, and hands it on. -/
def handedOnEvents : List SlotEvent :=
  [.acquire .setup,.acquire .poll,.acquire .set,.release 0,.cancel 2,.resume 2]

def handedOn : Slot := (Transition.exec Slot.step {} handedOnEvents).getD {}

theorem scheduling_law_handedOn :
    (∀ a b, handedOn.Owns a → handedOn.Owns b → a = b) ∧
    (∀ r, handedOn.Live r → handedOn.queue.busy = true ∧ ∃ o, handedOn.Owns o) ∧
    ∀ event t, handedOn.step event = some t → SlotStep handedOn event t := by
  have hrun : Transition.exec Slot.step {} handedOnEvents = some handedOn := rfl
  exact scheduling_law handedOn (Transition.reachable_of_exec hrun)

example : (handedOn.tasks 1).map Acquirer.stage = some (.waiting (.result ()) false) := rfl

end Pyhems.Runtime

import Mathlib.Data.Prod.Lex
import Pyhems.Library.SkipQueue
import Pyhems.Protocol.Bytes

/-! The queue that allows one outstanding request per node, granted by priority. Waiting
requests are known by the future that they await; a cancelled one stays in the
heap until a release throws it away. -/
namespace Pyhems.Runtime
open Protocol Library

inductive Future (α : Type) where
  | pending
  | result (value : α)
  | exception (exn : Exn)
  | cancelled
  deriving DecidableEq, Repr

def Future.done {α : Type} : Future α → Bool
  | .pending => false
  | _ => true

/-- Order in which queued requests to one node are sent. -/
inductive RequestPriority where
  | set
  | setup
  | poll
  deriving DecidableEq, Repr

def RequestPriority.value : RequestPriority → Nat
  | set => 0
  | setup => 1
  | poll => 2

/-- An entry of the heap; `request` owns the future. -/
structure Waiter where
  priority : RequestPriority
  sequence : Nat
  request : Nat
  deriving DecidableEq, Repr

/-- Heap order. Sequence numbers differ, so futures are never compared. -/
def Waiter.key (w : Waiter) : ℕ ×ₗ ℕ := toLex (w.priority.value,w.sequence)

/-- The heap is kept as the sorted list of its entries. -/
structure NodeRequestQueue where
  busy : Bool := false
  waiters : List Waiter := []
  sequence : Nat := 0
  deriving DecidableEq, Repr

namespace NodeRequestQueue

/-- Whether no request holds or waits for the slot. -/
def idle (q : NodeRequestQueue) : Bool := !q.busy && q.waiters.isEmpty

/-- `acquire` up to its await: take the idle slot, or queue a future for `request`. -/
def acquire (q : NodeRequestQueue) (priority : RequestPriority) (request : Nat) :
    NodeRequestQueue × Bool :=
  if q.idle then ({q with busy := true},true)
  else ({q with waiters := SkipQueue.push Waiter.key ⟨priority,q.sequence,request⟩ q.waiters,
                sequence := q.sequence+1},false)

/-- `release`: the request whose future gets the slot, if any. `done` tells of each queued
request whether its future is done. -/
def release (q : NodeRequestQueue) (done : Nat → Bool) : NodeRequestQueue × Option Nat :=
  match SkipQueue.pop (fun w => done w.request) q.waiters with
  | some (w,waiters) => ({q with waiters},some w.request)
  | none => ({q with waiters := [],busy := false},none)

/-- `fail_waiters`: the requests whose futures fail. -/
def failWaiters (q : NodeRequestQueue) (done : Nat → Bool) : NodeRequestQueue × List Nat :=
  ({q with waiters := []},(q.waiters.map Waiter.request).filter fun request => !done request)

theorem acquire_direct (q : NodeRequestQueue) (priority : RequestPriority) (request : Nat) :
    (q.acquire priority request).2 = q.idle := by
  unfold acquire
  split
  · next hidle => exact hidle.symm
  · next hidle => exact (Bool.eq_false_iff.mpr hidle).symm

end NodeRequestQueue

/-! ### One owner, and no request left behind a free slot -/

/-- The queue is in step with its requests: `live` ones await the slot with a pending future,
and `owns` holds of a request from the moment the slot is handed to it. -/
structure Coherent (q : NodeRequestQueue) (live owns : Nat → Prop) : Prop where
  ordered : SkipQueue.Ordered Waiter.key q.waiters
  numbered : ∀ w ∈ q.waiters, w.sequence < q.sequence
  distinct : (q.waiters.map Waiter.request).Nodup
  queued : ∀ r, live r → ∃ w ∈ q.waiters, w.request = r
  busy : q.waiters ≠ [] → q.busy = true
  owner : q.busy = true ↔ ∃ r, owns r
  unique : ∀ a b, owns a → owns b → a = b

variable {q : NodeRequestQueue} {live owns live' owns' : Nat → Prop} {request : Nat}
  {priority : RequestPriority}
  {done : Nat → Bool}

theorem coherent_empty (hlive : ∀ r, ¬ live r) (howns : ∀ r, ¬ owns r) : Coherent {} live owns :=
  ⟨.nil,by simp,by simp,fun r hr => absurd hr (hlive r),by simp,
    ⟨nofun,fun ⟨r,hr⟩ => absurd hr (howns r)⟩,fun a _ ha => absurd ha (howns a)⟩

theorem Coherent.idle_iff (h : Coherent q live owns) : q.idle = true ↔ q.busy = false := by
  simp only [NodeRequestQueue.idle,Bool.and_eq_true,Bool.not_eq_true',List.isEmpty_iff]
  constructor
  · exact fun hidle => hidle.1
  · intro hbusy
    refine ⟨hbusy,?_⟩
    by_contra hne
    rw [h.busy hne] at hbusy
    cases hbusy

/-- An idle queue has neither an owner nor a live request. -/
theorem Coherent.idle (h : Coherent q live owns) (hidle : q.idle = true) :
    (∀ r, ¬ live r) ∧ ∀ r, ¬ owns r := by
  have hbusy := h.idle_iff.mp hidle
  have hempty : q.waiters = [] := by
    by_contra hne
    rw [h.busy hne] at hbusy
    cases hbusy
  refine ⟨fun r hr => ?_,fun r hr => ?_⟩
  · obtain ⟨w,hw,_⟩ := h.queued r hr
    rw [hempty] at hw
    cases hw
  · rw [h.owner.mpr ⟨r,hr⟩] at hbusy
    cases hbusy

/-- A live request waits behind an owner. -/
theorem Coherent.exists_owner (h : Coherent q live owns) {r : Nat} (hr : live r) : ∃ o, owns o := by
  obtain ⟨w,hw,_⟩ := h.queued r hr
  exact h.owner.mp (h.busy (List.ne_nil_of_mem hw))

/-- The same requests in the same roles. -/
theorem Coherent.congr (h : Coherent q live owns) (hlive : ∀ r, live' r → live r)
    (howns : ∀ r, owns' r ↔ owns r) : Coherent q live' owns' :=
  ⟨h.ordered,h.numbered,h.distinct,fun r hr => h.queued r (hlive r hr),h.busy,
    h.owner.trans (exists_congr fun r => (howns r).symm),
    fun a b ha hb => h.unique a b ((howns a).mp ha) ((howns b).mp hb)⟩

/-- Taking the idle slot. -/
theorem Coherent.take (h : Coherent q live owns) (hidle : q.idle = true)
    (hlive : ∀ r, live' r → live r) (howns : ∀ r, owns' r ↔ owns r ∨ r = request) :
    Coherent (q.acquire priority request).1 live' owns' := by
  obtain ⟨hnone,hfree⟩ := h.idle hidle
  have hacquire : (q.acquire priority request).1 = {q with busy := true} := by
    rw [NodeRequestQueue.acquire,if_pos hidle]
  have howner : ∀ r, owns' r → r = request := fun r hr =>
    ((howns r).mp hr).resolve_left (hfree r)
  rw [hacquire]
  exact ⟨h.ordered,h.numbered,h.distinct,fun r hr => absurd (hlive r hr) (hnone r),fun _ => rfl,
    ⟨fun _ => ⟨request,(howns request).mpr (Or.inr rfl)⟩,fun _ => rfl⟩,
    fun a b ha hb => (howner a ha).trans (howner b hb).symm⟩

/-- Queueing behind the owner. -/
theorem Coherent.wait (h : Coherent q live owns) (hidle : q.idle = false)
    (hnew : ∀ w ∈ q.waiters, w.request ≠ request)
    (hlive : ∀ r, live' r → live r ∨ r = request) (howns : ∀ r, owns' r ↔ owns r) :
    Coherent (q.acquire priority request).1 live' owns' := by
  have hacquire : (q.acquire priority request).1 =
      {q with waiters := SkipQueue.push Waiter.key ⟨priority,q.sequence,request⟩ q.waiters,
              sequence := q.sequence+1} := by
    rw [NodeRequestQueue.acquire,if_neg (by simp [hidle])]
  have hbusy : q.busy = true := by
    by_contra hfree
    rw [h.idle_iff.mpr (by simpa using hfree)] at hidle
    cases hidle
  rw [hacquire]
  refine ⟨h.ordered.push _,fun w hw => ?_,?_,fun r hr => ?_,fun _ => hbusy,
    h.owner.trans (exists_congr fun r => (howns r).symm),
    fun a b ha hb => h.unique a b ((howns a).mp ha) ((howns b).mp hb)⟩
  · rcases SkipQueue.mem_push.mp hw with rfl | hw
    · exact Nat.lt_succ_self _
    · exact Nat.lt_succ_of_lt (h.numbered w hw)
  · refine (SkipQueue.perm_push.map Waiter.request).nodup_iff.mpr (List.nodup_cons.mpr ⟨?_,h.distinct⟩)
    intro hmem
    obtain ⟨w,hw,he⟩ := List.mem_map.mp hmem
    exact hnew w hw he
  · rcases hlive r hr with hr | rfl
    · obtain ⟨w,hw,he⟩ := h.queued r hr
      exact ⟨w,SkipQueue.mem_push.mpr (Or.inr hw),he⟩
    · exact ⟨_,SkipQueue.mem_push.mpr (Or.inl rfl),rfl⟩

/-- What a release hands over: the slot goes to the live request of least key, if any. -/
theorem Coherent.release_granted (h : Coherent q live owns)
    (hdone : ∀ w ∈ q.waiters, done w.request = false ↔ live w.request) :
    match (q.release done).2 with
    | none => ∀ r, ¬ live r
    | some g => ∃ w ∈ q.waiters, w.request = g ∧ live g ∧
        ∀ v ∈ q.waiters, live v.request → w.key ≤ v.key := by
  unfold NodeRequestQueue.release
  cases hpop : SkipQueue.pop (fun w => done w.request) q.waiters with
  | none =>
    intro r hr
    obtain ⟨w,hw,rfl⟩ := h.queued r hr
    have hstale := SkipQueue.pop_eq_none hpop w hw
    rw [(hdone w hw).mpr hr] at hstale
    cases hstale
  | some popped =>
    have hpopped := SkipQueue.pop_eq_some h.ordered hpop
    exact ⟨popped.1,hpopped.mem,rfl,(hdone _ hpopped.mem).mp hpopped.live,
      fun v hv hlive => hpopped.least v hv ((hdone v hv).mpr hlive)⟩

/-- Releasing by the owner keeps the queue in step. -/
theorem Coherent.release (h : Coherent q live owns) (live' owns' : Nat → Prop) {o : Nat} (ho : owns o)
    (hdone : ∀ w ∈ q.waiters, done w.request = false ↔ live w.request)
    (hlive : ∀ r, live' r → live r ∧ (q.release done).2 ≠ some r)
    (howns : ∀ r, owns' r ↔ (owns r ∧ r ≠ o) ∨ (q.release done).2 = some r) :
    Coherent (q.release done).1 live' owns' := by
  have hgone : ∀ r, ¬ (owns r ∧ r ≠ o) := fun r hr => hr.2 (h.unique r o hr.1 ho)
  have hgranted : ∀ r, owns' r ↔ (q.release done).2 = some r := fun r =>
    (howns r).trans (or_iff_right (hgone r))
  have hbusy : q.busy = true := h.owner.mpr ⟨o,ho⟩
  unfold NodeRequestQueue.release at hlive hgranted ⊢
  cases hpop : SkipQueue.pop (fun w => done w.request) q.waiters with
  | none =>
    rw [hpop] at hlive hgranted
    refine ⟨.nil,by simp,by simp,fun r hr => ?_,by simp,⟨nofun,fun ⟨r,hr⟩ => ?_⟩,fun a b ha => ?_⟩
    · obtain ⟨w,hw,rfl⟩ := h.queued r (hlive r hr).1
      have hstale := SkipQueue.pop_eq_none hpop w hw
      rw [(hdone w hw).mpr (hlive _ hr).1] at hstale
      cases hstale
    · cases (hgranted r).mp hr
    · cases (hgranted a).mp ha
  | some popped =>
    rw [hpop] at hlive hgranted
    have hpopped := SkipQueue.pop_eq_some h.ordered hpop
    have hrest : ∀ w ∈ popped.2, w ∈ q.waiters := fun w hw =>
      hpopped.sublist.subset (List.mem_cons_of_mem _ hw)
    refine ⟨hpopped.ordered h.ordered,fun w hw => h.numbered w (hrest w hw),?_,fun r hr => ?_,
      fun _ => hbusy,⟨fun _ => ⟨popped.1.request,(hgranted _).mpr rfl⟩,fun _ => hbusy⟩,
      fun a b ha hb => ?_⟩
    · exact (List.nodup_cons.mp (h.distinct.sublist (hpopped.sublist.map Waiter.request))).2
    · obtain ⟨w,hw,rfl⟩ := h.queued r (hlive r hr).1
      rcases hpopped.kept w hw ((hdone w hw).mpr (hlive _ hr).1) with rfl | hw
      · exact absurd rfl (hlive _ hr).2
      · exact ⟨w,hw,rfl⟩
    · exact Option.some.inj (((hgranted a).mp ha).symm.trans ((hgranted b).mp hb))

end Pyhems.Runtime

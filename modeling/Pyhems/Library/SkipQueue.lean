import Mathlib.Data.List.Sort

/-! Priority queues as sorted lists whose entries may go stale in place. A pop throws away the
stale entries in front of the first live one. -/
namespace Pyhems.Library.SkipQueue
variable {α κ : Type} [LinearOrder κ] (key : α → κ)

/-- Sorted by key. -/
def Ordered (queue : List α) : Prop := queue.Pairwise fun a b => key a ≤ key b

/-- Insert an entry at its place. -/
def push (a : α) (queue : List α) : List α := queue.orderedInsert (fun a b => key a ≤ key b) a

/-- The first live entry and what follows it. -/
def pop (stale : α → Bool) : List α → Option (α × List α)
  | [] => none
  | a :: queue => if stale a then pop stale queue else some (a,queue)

variable {key} {queue rest : List α} {a b : α} {stale : α → Bool}

theorem mem_push : a ∈ push key b queue ↔ a = b ∨ a ∈ queue := List.mem_orderedInsert _

theorem perm_push : (push key a queue).Perm (a :: queue) := List.perm_orderedInsert _ a queue

theorem Ordered.push (h : Ordered key queue) (a : α) : Ordered key (push key a queue) :=
  haveI : Std.Total fun a b : α => key a ≤ key b := ⟨fun a b => le_total (key a) (key b)⟩
  haveI : IsTrans α fun a b => key a ≤ key b := ⟨fun _ _ _ => le_trans⟩
  List.Pairwise.orderedInsert a queue h

theorem pop_eq_none (h : pop stale queue = none) : ∀ a ∈ queue, stale a = true := by
  induction queue with
  | nil => nofun
  | cons b queue ih =>
    rw [pop] at h
    split at h
    · next hb => exact List.forall_mem_cons.mpr ⟨hb,ih h⟩
    · cases h

theorem mem_of_pop (h : pop stale queue = some (a,rest)) (hb : b ∈ rest) : b ∈ queue := by
  induction queue with
  | nil => cases h
  | cons c queue ih =>
    rw [pop] at h
    split at h
    · exact List.mem_cons_of_mem c (ih h)
    · cases h
      exact List.mem_cons_of_mem _ hb

theorem popped_mem (h : pop stale queue = some (a,rest)) : a ∈ queue := by
  induction queue with
  | nil => cases h
  | cons c queue ih =>
    rw [pop] at h
    split at h
    · exact List.mem_cons_of_mem c (ih h)
    · cases h
      exact List.mem_cons_self

theorem live_of_pop (h : pop stale queue = some (a,rest)) : stale a = false := by
  induction queue with
  | nil => cases h
  | cons c queue ih =>
    rw [pop] at h
    split at h
    · exact ih h
    · next hc =>
      cases h
      simpa using hc

/-- A pop returns a live entry of least key, and keeps every other live entry. -/
structure Popped (key : α → κ) (stale : α → Bool) (queue : List α) (a : α) (rest : List α) : Prop where
  live : stale a = false
  mem : a ∈ queue
  least : ∀ b ∈ queue, stale b = false → key a ≤ key b
  kept : ∀ b ∈ queue, stale b = false → b = a ∨ b ∈ rest
  sublist : (a :: rest).Sublist queue

theorem pop_eq_some (hordered : Ordered key queue) (h : pop stale queue = some (a,rest)) :
    Popped key stale queue a rest := by
  induction queue with
  | nil => cases h
  | cons b queue ih =>
    obtain ⟨hhead,htail⟩ := List.pairwise_cons.mp hordered
    rw [pop] at h
    split at h
    · next hb =>
      have hrec := ih htail h
      refine ⟨hrec.live,List.mem_cons_of_mem b hrec.mem,fun c hc hlive => ?_,fun c hc hlive => ?_,
        hrec.sublist.cons b⟩
      · rcases List.mem_cons.mp hc with rfl | hc
        · rw [hb] at hlive
          cases hlive
        · exact hrec.least c hc hlive
      · rcases List.mem_cons.mp hc with rfl | hc
        · rw [hb] at hlive
          cases hlive
        · exact hrec.kept c hc hlive
    · next hb =>
      cases h
      refine ⟨by simpa using hb,List.mem_cons_self,fun c hc _ => ?_,fun c hc _ => List.mem_cons.mp hc,
        .refl _⟩
      rcases List.mem_cons.mp hc with rfl | hc
      · exact le_rfl
      · exact hhead c hc

theorem Popped.ordered (h : Popped key stale queue a rest) (hordered : Ordered key queue) :
    Ordered key rest := (List.pairwise_cons.mp (hordered.sublist h.sublist)).2

end Pyhems.Library.SkipQueue

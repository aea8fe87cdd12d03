import Mathlib.Data.Finset.Basic
import Mathlib.Order.Basic

/-! Reference counts: a counter that is incremented for every holder of an element and decremented
when the holder lets go, and drops an element that nobody holds. -/
namespace Pyhems.Library.RefCount
variable {α : Type}

/-- A dict from elements to numbers. -/
abbrev Counter (α : Type) := α → Option Int

namespace Counter

def empty : Counter α := fun _ => none

variable [DecidableEq α]

/-- `counter.update(elements)`, with elements that differ. -/
def update (counts : Counter α) (elements : Finset α) : Counter α := fun a =>
  if a ∈ elements then some ((counts a).getD 0+1) else counts a

/-- `counter.subtract(elements)`, with elements that differ. -/
def subtract (counts : Counter α) (elements : Finset α) : Counter α := fun a =>
  if a ∈ elements then some ((counts a).getD 0-1) else counts a

/-- `del counter[a]` for the elements whose count is not positive. -/
def prune (counts : Counter α) (elements : Finset α) : Counter α := fun a =>
  if a ∈ elements ∧ (counts a).getD 0 ≤ 0 then none else counts a

end Counter

/-- The counter has an entry for what is held, with the number of its holders, and no other. -/
def Counts (counts : Counter α) (holders : α → Nat) : Prop :=
  ∀ a, counts a = if holders a = 0 then none else some (holders a : Int)

variable {counts : Counter α} {holders : α → Nat} {elements : Finset α}

theorem counts_empty : Counts (Counter.empty : Counter α) fun _ => 0 := fun _ => rfl

theorem Counts.getD (h : Counts counts holders) (a : α) : (counts a).getD 0 = holders a := by
  rw [h a]
  split
  · next hzero => simp [hzero]
  · rfl

theorem Counts.isSome_iff (h : Counts counts holders) (a : α) :
    (counts a).isSome = true ↔ 0 < holders a := by
  rw [h a]
  split
  · next hzero => simp [hzero]
  · next hheld => simp [Nat.pos_of_ne_zero hheld]

variable [DecidableEq α]

/-- One more holder of the elements. -/
theorem Counts.update (h : Counts counts holders) (elements : Finset α) :
    Counts (counts.update elements) fun a => holders a+if a ∈ elements then 1 else 0 := by
  intro a
  unfold Counter.update
  by_cases ha : a ∈ elements
  · simp [ha,h.getD a]
  · simp [ha,h a]

/-- One holder of the elements less. -/
theorem Counts.release (h : Counts counts holders) (hheld : ∀ a ∈ elements, 0 < holders a) :
    Counts ((counts.subtract elements).prune elements) fun a =>
      holders a-if a ∈ elements then 1 else 0 := by
  intro a
  unfold Counter.prune Counter.subtract
  by_cases ha : a ∈ elements
  · have hpos := hheld a ha
    by_cases hlast : holders a = 1
    · simp [ha,h.getD a,hlast]
    · have hmore : ¬ ((holders a : Int)-1 ≤ 0) := by omega
      have hleft : holders a-1 ≠ 0 := by omega
      have hcast : ((holders a-1 : Nat) : Int) = holders a-1 := by omega
      simp [ha,h.getD a,hmore,hleft,hcast]
  · simp [ha,h a]

end Pyhems.Library.RefCount

import Mathlib.Algebra.Order.Module.Defs
import Mathlib.Analysis.Convex.Basic
import Mathlib.Data.Finset.Max
import Mathlib.Data.List.Induction

/-! Exponentially weighted moving averages. The average of a sequence of observations lies in every
convex set that the observations lie in, so on a line it lies between the least and the greatest. -/
namespace Pyhems.Library.MovingAverage
variable {𝕜 E : Type} [Ring 𝕜] [AddCommGroup E] [Module 𝕜 E]

/-- Take a further observation into the average. The first one is the average. -/
def smooth (weight : 𝕜) (average : Option E) (x : E) : Option E :=
  match average with
  | none => some x
  | some a => some (weight • x + (1-weight) • a)

/-- The average of the observations in their order. -/
def movingAverage (weight : 𝕜) (xs : List E) : Option E := xs.foldl (smooth weight) none

variable {weight : 𝕜} {xs : List E}

theorem movingAverage_append_singleton (weight : 𝕜) (xs : List E) (x : E) :
    movingAverage weight (xs ++ [x]) = smooth weight (movingAverage weight xs) x := by
  rw [movingAverage,List.foldl_append]
  rfl

section Convex
variable [PartialOrder 𝕜] [IsOrderedRing 𝕜] {s : Set E}

/-- One observation keeps the average in the set. -/
theorem smooth_mem (hs : Convex 𝕜 s) (hnonneg : 0 ≤ weight) (hle : weight ≤ 1) {before : Option E} {x : E}
    (hbefore : ∀ a ∈ before, a ∈ s) (hx : x ∈ s) : ∀ a ∈ smooth weight before x, a ∈ s := by
  intro a ha
  cases before with
  | none =>
    cases ha
    exact hx
  | some b =>
    cases ha
    exact hs hx (hbefore b rfl) hnonneg (sub_nonneg.mpr hle) (add_sub_cancel weight 1)

theorem movingAverage_mem (hs : Convex 𝕜 s) (hnonneg : 0 ≤ weight) (hle : weight ≤ 1)
    (hxs : ∀ x ∈ xs, x ∈ s) : ∀ a ∈ movingAverage weight xs, a ∈ s := by
  induction xs using List.reverseRecOn with
  | nil => exact fun a ha => by cases ha
  | append_singleton xs x ih =>
    rw [movingAverage_append_singleton]
    have hbefore := ih fun y hy => hxs y (List.mem_append_left _ hy)
    exact smooth_mem hs hnonneg hle hbefore (hxs x List.mem_concat_self)

end Convex

section Line
variable {L : Type} [AddCommGroup L] [LinearOrder L] [IsOrderedAddMonoid L]
variable [PartialOrder 𝕜] [IsOrderedRing 𝕜] [Module 𝕜 L] [PosSMulMono 𝕜 L]

/-- An average of some of the observations lies between the least and the greatest of all. -/
theorem movingAverage_between (hnonneg : 0 ≤ weight) (hle : weight ≤ 1) {xs recent : List L}
    (hrecent : recent ⊆ xs) {average : L} (haverage : movingAverage weight recent = some average) :
    ∃ least greatest, IsLeast {x | x ∈ xs} least ∧ IsGreatest {x | x ∈ xs} greatest ∧
      least ≤ average ∧ average ≤ greatest := by
  have hne : recent ≠ [] := by
    rintro rfl
    cases haverage
  have hnonempty : xs.toFinset.Nonempty := by
    obtain ⟨x,hx⟩ := List.exists_mem_of_ne_nil recent hne
    exact ⟨x,List.mem_toFinset.mpr (hrecent hx)⟩
  have hleast := xs.toFinset.isLeast_min' hnonempty
  have hgreatest := xs.toFinset.isGreatest_max' hnonempty
  rw [List.coe_toFinset] at hleast hgreatest
  have hmem : average ∈ Set.Icc (xs.toFinset.min' hnonempty) (xs.toFinset.max' hnonempty) :=
    movingAverage_mem (convex_Icc _ _) hnonneg hle (fun x hx => ⟨hleast.2 (hrecent hx),hgreatest.2 (hrecent hx)⟩)
      average haverage
  exact ⟨_,_,hleast,hgreatest,hmem.1,hmem.2⟩

end Line

end Pyhems.Library.MovingAverage

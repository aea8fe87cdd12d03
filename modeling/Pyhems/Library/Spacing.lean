import Mathlib.Algebra.Order.Field.Basic
import Mathlib.Tactic.Ring

/-! Events that keep a distance. When every event comes a distance after those before it, a window of
time has room for few of them. -/
namespace Pyhems.Library.Spacing
variable {α K : Type} [Field K] [LinearOrder K] [IsStrictOrderedRing K] (time : α → K) {distance : K}
  {events : List α}

/-- The events after the first one lie in a window that begins a distance later. -/
theorem length_le_window (h : events.Pairwise fun a b => time a+distance ≤ time b) (hne : events ≠ []) {lo hi : K}
    (hwindow : ∀ a ∈ events, lo ≤ time a ∧ time a ≤ hi) : lo+((events.length:K)-1)*distance ≤ hi := by
  induction events generalizing lo with
  | nil => exact absurd rfl hne
  | cons a rest ih =>
    obtain ⟨hlo,hhi⟩ := hwindow a List.mem_cons_self
    obtain ⟨hfirst,hrest⟩ := List.pairwise_cons.mp h
    by_cases hempty : rest = []
    · subst hempty
      have hzero : (([a].length:K)-1)*distance = 0 := by
        rw [List.length_singleton,Nat.cast_one,sub_self,zero_mul]
      rw [hzero,add_zero]
      exact hlo.trans hhi
    · have hlater : ∀ b ∈ rest, lo+distance ≤ time b ∧ time b ≤ hi := fun b hb =>
        ⟨(add_le_add_left hlo distance).trans (hfirst b hb),(hwindow b (List.mem_cons_of_mem _ hb)).2⟩
      calc lo+(((a :: rest).length:K)-1)*distance = lo+distance+((rest.length:K)-1)*distance := by
            rw [List.length_cons,Nat.cast_add,Nat.cast_one]
            ring
        _ ≤ hi := ih hrest hempty hlater

/-- A window has room for one event, and one more for each distance that fits into it. -/
theorem length_le (h : events.Pairwise fun a b => time a+distance ≤ time b) (hdistance : 0 < distance) {lo hi : K}
    (hle : lo ≤ hi) (hwindow : ∀ a ∈ events, lo ≤ time a ∧ time a ≤ hi) :
    (events.length:K) ≤ (hi-lo)/distance+1 := by
  by_cases hempty : events = []
  · subst hempty
    have hpos : 0 ≤ (hi-lo)/distance := div_nonneg (sub_nonneg.mpr hle) hdistance.le
    rw [List.length_nil,Nat.cast_zero]
    exact hpos.trans (le_add_of_nonneg_right zero_le_one)
  · have hspan := length_le_window time h hempty hwindow
    rw [← sub_le_iff_le_add,le_div_iff₀ hdistance]
    exact le_sub_iff_add_le'.mpr hspan

end Pyhems.Library.Spacing

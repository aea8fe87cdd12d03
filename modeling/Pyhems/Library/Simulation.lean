import Pyhems.Library.Transition

/-! A transition system seen through a view. When every step is a sequence of moves of the view,
what the moves preserve holds of the view in every state reached. -/
namespace Pyhems.Library.Simulation
open Transition Relation
variable {σ ℓ α : Type} {step : σ → ℓ → Option σ} {guard : σ → ℓ → Prop} {start s : σ}
  {view : σ → α} {move : α → α → Prop}

/-- What single moves preserve, sequences of moves preserve. -/
theorem preserved (inv : α → Prop) (hmove : ∀ a b, inv a → move a b → inv b) {a b : α}
    (h : ReflTransGen move a b) (ha : inv a) : inv b := by
  induction h with
  | refl => exact ha
  | tail _ hb ih => exact hmove _ _ ih hb

/-- A run of the system is a sequence of moves of the view. -/
theorem moves_of_reaches
    (hview : ∀ s l t, guard s l → step s l = some t → ReflTransGen move (view s) (view t))
    (h : Reaches step guard start s) : ReflTransGen move (view start) (view s) := by
  induction h with
  | refl => exact .refl
  | tail _ hguard ht ih => exact ih.trans (hview _ _ _ hguard ht)

theorem invariant_of_view (view : σ → α) {inv : α → Prop}
    (hview : ∀ s l t, guard s l → step s l = some t → ReflTransGen move (view s) (view t))
    (hmove : ∀ a b, inv a → move a b → inv b) (hstart : inv (view start))
    (h : Reaches step guard start s) : inv (view s) :=
  preserved inv hmove (moves_of_reaches hview h) hstart

end Pyhems.Library.Simulation

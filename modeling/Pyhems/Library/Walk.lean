import Mathlib.Data.List.Basic
import Pyhems.Library.Loop

/-! Walking a list that the visits themselves change. A walk over a copy visits what the list held at
the start; a walk over the list looks up each index in the list as it is by then. -/
namespace Pyhems.Library.Walk
variable {σ α : Type} (items : σ → List α) (visit : σ → α → σ)

/-- `for x in list(items)`. -/
def overCopy (s : σ) : σ := (items s).foldl visit s

/-- One turn of `for x in items`, whose iterator knows no more than its index. -/
def turn : Nat × σ → Loop.Turn (Nat × σ) σ
  | (index,s) =>
    match (items s)[index]? with
    | some x => .again (index+1,visit s x)
    | none => .leave s

/-- `for x in items`; none if it still goes on after `fuel` turns. -/
def overList (fuel : Nat) (s : σ) : Option σ := Loop.run (turn items visit) fuel (0,s)

/-- Each element stands at its own index when it is visited, and none stands after the last. -/
def InPlace : (index : Nat) → List α → σ → Prop
  | index, [], s => (items s)[index]? = none
  | index, x :: xs, s => (items s)[index]? = some x ∧ InPlace (index+1) xs (visit s x)

instance decidableInPlace [DecidableEq α] :
    (index : Nat) → (xs : List α) → (s : σ) → Decidable (InPlace items visit index xs s)
  | index, [], s => inferInstanceAs (Decidable ((items s)[index]? = none))
  | index, x :: xs, s =>
    have := decidableInPlace (index+1) xs (visit s x)
    inferInstanceAs (Decidable ((items s)[index]? = some x ∧ InPlace items visit (index+1) xs (visit s x)))

variable {items visit} {s t : σ} {x : α} {xs : List α} {index fuel : Nat}

theorem turn_some (h : (items s)[index]? = some x) :
    turn items visit (index,s) = .again (index+1,visit s x) := by
  rw [turn,h]

theorem turn_none (h : (items s)[index]? = none) : turn items visit (index,s) = .leave s := by
  rw [turn,h]

theorem run_of_inPlace (h : InPlace items visit index xs s) :
    Loop.run (turn items visit) (xs.length+1) (index,s) = some (xs.foldl visit s) := by
  induction xs generalizing index s with
  | nil => exact Loop.run_leave (turn_none h) 0
  | cons x xs ih =>
    obtain ⟨hx,hxs⟩ := h
    rw [List.length_cons,Loop.run_again (turn_some hx)]
    exact ih hxs

section Visited
variable (visited : σ → List α) (hvisit : ∀ s x, visited (visit s x) = visited s ++ [x])
include hvisit

theorem visited_foldl (xs : List α) (s : σ) : visited (xs.foldl visit s) = visited s ++ xs := by
  induction xs generalizing s with
  | nil => exact (List.append_nil _).symm
  | cons x xs ih =>
    rw [List.foldl_cons,ih,hvisit,List.append_assoc]
    rfl

theorem visited_run (h : Loop.run (turn items visit) fuel (index,s) = some t) :
    ∃ xs, visited t = visited s ++ xs := by
  induction fuel generalizing index s with
  | zero => cases h
  | succ fuel ih =>
    cases hitem : (items s)[index]? with
    | none =>
      rw [Loop.run_leave (turn_none hitem)] at h
      cases h
      exact ⟨[],(List.append_nil _).symm⟩
    | some x =>
      rw [Loop.run_again (turn_some hitem)] at h
      obtain ⟨xs,hxs⟩ := ih h
      exact ⟨x :: xs,by rw [hxs,hvisit,List.append_assoc]; rfl⟩

/-- What was visited stood in its place. -/
theorem inPlace_of_run (h : Loop.run (turn items visit) fuel (index,s) = some t)
    (hxs : visited t = visited s ++ xs) : InPlace items visit index xs s := by
  induction xs generalizing fuel index s with
  | nil =>
    cases fuel with
    | zero => cases h
    | succ fuel =>
      cases hitem : (items s)[index]? with
      | none => exact hitem
      | some y =>
        rw [Loop.run_again (turn_some hitem)] at h
        obtain ⟨ys,hys⟩ := visited_run visited hvisit h
        rw [hxs,hvisit,List.append_assoc,List.append_cancel_left_eq] at hys
        cases hys
  | cons x xs ih =>
    cases fuel with
    | zero => cases h
    | succ fuel =>
      cases hitem : (items s)[index]? with
      | none =>
        rw [Loop.run_leave (turn_none hitem)] at h
        cases h
        rw [List.self_eq_append_right] at hxs
        cases hxs
      | some y =>
        rw [Loop.run_again (turn_some hitem)] at h
        obtain ⟨ys,hys⟩ := visited_run visited hvisit h
        rw [hvisit,List.append_assoc] at hys
        have htail := List.append_cancel_left (hxs.symm.trans hys)
        obtain ⟨rfl,rfl⟩ := List.cons.inj htail
        refine ⟨hitem,ih h ?_⟩
        rw [hys,hvisit,List.append_assoc]

/-- Both walks come to the same end exactly if all elements stand in their places. -/
theorem overList_iff :
    (∃ fuel, overList items visit fuel s = some (overCopy items visit s)) ↔ InPlace items visit 0 (items s) s := by
  constructor
  · rintro ⟨fuel,h⟩
    exact inPlace_of_run visited hvisit h (visited_foldl visited hvisit _ _)
  · intro h
    exact ⟨_,run_of_inPlace h⟩

end Visited

end Pyhems.Library.Walk

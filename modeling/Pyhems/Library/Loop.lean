import Mathlib.Logic.Basic

/-! While loops with an early exit, run with fuel. The body either goes round again or
leaves with a result. A decreasing measure gives enough fuel, and an invariant of
the loop head gives the property of the result. -/
namespace Pyhems.Library.Loop
variable {σ ρ : Type}

/-- One turn of a loop body. -/
inductive Turn (σ ρ : Type) where
  | again (state : σ)
  | leave (result : ρ)

/-- Run the loop for at most `fuel` turns. -/
def run (body : σ → Turn σ ρ) : (fuel : Nat) → σ → Option ρ
  | 0, _ => none
  | fuel+1, s =>
    match body s with
    | .again t => run body fuel t
    | .leave r => some r

/-- The states seen at the loop head. -/
inductive Heads (body : σ → Turn σ ρ) (start : σ) : σ → Prop where
  | start : Heads body start start
  | again {s t : σ} (hs : Heads body start s) (ht : body s = .again t) : Heads body start t

variable {body : σ → Turn σ ρ} {inv : σ → Prop}

theorem run_again {s t : σ} (h : body s = .again t) (fuel : Nat) :
    run body (fuel+1) s = run body fuel t := by
  rw [run,h]

theorem run_leave {s : σ} {r : ρ} (h : body s = .leave r) (fuel : Nat) :
    run body (fuel+1) s = some r := by
  rw [run,h]

/-- What every turn preserves holds whenever the loop head is reached. -/
theorem Heads.invariant (hagain : ∀ s t, inv s → body s = .again t → inv t) {start s : σ}
    (h : Heads body start s) (hstart : inv start) : inv s := by
  induction h with
  | start => exact hstart
  | again _ ht ih => exact hagain _ _ ih ht

theorem Heads.head {s t u : σ} (hst : body s = .again t) (h : Heads body t u) : Heads body s u := by
  induction h with
  | start => exact .again .start hst
  | again _ ht ih => exact .again ih ht

/-- A result was returned by some turn that the loop head reached. -/
theorem heads_of_run {fuel : Nat} {s : σ} {r : ρ} (h : run body fuel s = some r) :
    ∃ t, Heads body s t ∧ body t = .leave r := by
  induction fuel generalizing s with
  | zero => cases h
  | succ fuel ih =>
    cases hs : body s with
    | leave q =>
      rw [run_leave hs] at h
      cases h
      exact ⟨s,.start,hs⟩
    | again t =>
      rw [run_again hs] at h
      obtain ⟨u,hu,hr⟩ := ih h
      exact ⟨u,hu.head hs,hr⟩

/-- The total rule: an invariant and a measure that every further turn decreases. -/
theorem run_total (inv : σ → Prop) (post : ρ → Prop) (measure : σ → Nat)
    (hagain : ∀ s t, inv s → body s = .again t → inv t ∧ measure t < measure s)
    (hleave : ∀ s r, inv s → body s = .leave r → post r)
    {fuel : Nat} {s : σ} (hs : inv s) (hfuel : measure s < fuel) :
    ∃ r, run body fuel s = some r ∧ post r := by
  induction fuel generalizing s with
  | zero => omega
  | succ fuel ih =>
    cases hb : body s with
    | leave r => exact ⟨r,run_leave hb fuel,hleave s r hs hb⟩
    | again t =>
      obtain ⟨ht,hlt⟩ := hagain s t hs hb
      rw [run_again hb]
      exact ih ht (by omega)

/-- Two loops in step: each turn of the second is the image of a turn of the first. -/
theorem run_map {σ' ρ' : Type} {body' : σ' → Turn σ' ρ'} (f : σ → σ') (g : ρ → ρ')
    (hagain : ∀ s t, body s = .again t → body' (f s) = .again (f t))
    (hleave : ∀ s r, body s = .leave r → body' (f s) = .leave (g r)) (fuel : Nat) (s : σ) :
    run body' fuel (f s) = (run body fuel s).map g := by
  induction fuel generalizing s with
  | zero => rfl
  | succ fuel ih =>
    cases hb : body s with
    | leave r =>
      rw [run_leave hb,run_leave (hleave s r hb)]
      rfl
    | again t => rw [run_again hb,run_again (hagain s t hb),ih t]

end Pyhems.Library.Loop

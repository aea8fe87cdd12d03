import Mathlib.Logic.Relation

/-! Transition systems given by an executable step function on labels. A guard on the
steps singles out the runs that a conditional result is about. -/
namespace Pyhems.Library.Transition
variable {σ ℓ : Type}

/-- The states reached from `start` by steps that meet the guard. -/
inductive Reaches (step : σ → ℓ → Option σ) (guard : σ → ℓ → Prop) (start : σ) : σ → Prop where
  | refl : Reaches step guard start start
  | tail {s t : σ} {l : ℓ} (hs : Reaches step guard start s) (hguard : guard s l)
      (hstep : step s l = some t) : Reaches step guard start t

/-- The states of unconditional runs. -/
abbrev Reachable (step : σ → ℓ → Option σ) : σ → σ → Prop := Reaches step fun _ _ => True

variable {step : σ → ℓ → Option σ} {guard : σ → ℓ → Prop} {start s t : σ}

/-- What holds at the start and survives every guarded step holds in every state reached. -/
theorem Reaches.invariant {inv : σ → Prop} (h : Reaches step guard start s) (hstart : inv start)
    (hstep : ∀ s l t, inv s → guard s l → step s l = some t → inv t) : inv s := by
  induction h with
  | refl => exact hstart
  | tail _ hguard ht ih => exact hstep _ _ _ ih hguard ht

/-- The same, for an invariant that is proved along with another one. -/
theorem Reaches.invariant₂ {base inv : σ → Prop} (h : Reaches step guard start s)
    (hbase : ∀ s, Reaches step guard start s → base s) (hstart : inv start)
    (hstep : ∀ s l t, base s → inv s → guard s l → step s l = some t → inv t) : inv s := by
  induction h with
  | refl => exact hstart
  | tail hs hguard ht ih => exact hstep _ _ _ (hbase _ hs) ih hguard ht

theorem Reaches.mono {guard' : σ → ℓ → Prop} (h : Reaches step guard start s)
    (hguard : ∀ s l, guard s l → guard' s l) : Reaches step guard' start s := by
  induction h with
  | refl => exact .refl
  | tail _ hg ht ih => exact ih.tail (hguard _ _ hg) ht

theorem Reaches.reachable (h : Reaches step guard start s) : Reachable step start s :=
  h.mono fun _ _ _ => trivial

theorem Reaches.trans (hs : Reaches step guard start s) (ht : Reaches step guard s t) :
    Reaches step guard start t := by
  induction ht with
  | refl => exact hs
  | tail _ hguard ht ih => exact ih.tail hguard ht

/-- Perform the labels one after the other. -/
def exec (step : σ → ℓ → Option σ) (s : σ) (labels : List ℓ) : Option σ := labels.foldlM step s

theorem exec_append {labels later : List ℓ} : exec step s (labels ++ later) = some t ↔
    ∃ u, exec step s labels = some u ∧ exec step u later = some t := by
  rw [exec,List.foldlM_append]
  exact Option.bind_eq_some_iff

/-- A run whose labels meet the guard wherever they are performed. -/
theorem reaches_of_exec {labels : List ℓ} (hguard : ∀ l ∈ labels, ∀ s, guard s l)
    (h : exec step s labels = some t) : Reaches step guard s t := by
  induction labels generalizing s with
  | nil =>
    cases h
    exact .refl
  | cons l labels ih =>
    obtain ⟨u,hu,ht⟩ := Option.bind_eq_some_iff.mp h
    have hl := hguard l List.mem_cons_self s
    exact (Reaches.refl.tail hl hu).trans
      (ih (fun l' hl' => hguard l' (List.mem_cons_of_mem _ hl')) ht)

/-- A run that is checked as it is performed. -/
theorem reaches_of_checked (guard : σ → ℓ → Prop) {check : σ → ℓ → Bool} {labels : List ℓ}
    (hguard : ∀ s l, check s l = true → guard s l)
    (h : exec (fun s l => if check s l then step s l else none) s labels = some t) :
    Reaches step guard s t := by
  induction labels generalizing s with
  | nil =>
    cases h
    exact .refl
  | cons l labels ih =>
    obtain ⟨u,hu,ht⟩ := Option.bind_eq_some_iff.mp h
    obtain ⟨hcheck,hu⟩ := Option.ite_none_right_eq_some.mp hu
    exact (Reaches.refl.tail (hguard s l hcheck) hu).trans (ih ht)

theorem reachable_of_exec {labels : List ℓ} (h : exec step s labels = some t) :
    Reachable step s t :=
  reaches_of_exec (fun _ _ _ => trivial) h

end Pyhems.Library.Transition

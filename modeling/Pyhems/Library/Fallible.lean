import Mathlib.Data.List.Forall2
import Mathlib.Data.List.Basic

/-! Computations that may fail. What a successful one did is read off its result. -/
namespace Pyhems.Library.Fallible
variable {ε α β : Type}

theorem bind_eq_ok {x : Except ε α} {f : α → Except ε β} {b : β} :
    (x >>= f) = .ok b ↔ ∃ a, x = .ok a ∧ f a = .ok b := by
  cases x with
  | error e => exact ⟨nofun,fun ⟨_,h,_⟩ => nomatch h⟩
  | ok a => exact ⟨fun h => ⟨a,rfl,h⟩,fun ⟨_,h,hf⟩ => by cases h; exact hf⟩

theorem map_eq_ok {x : Except ε α} {f : α → β} {b : β} : f <$> x = .ok b ↔ ∃ a, x = .ok a ∧ f a = b := by
  cases x with
  | error e => exact ⟨nofun,fun ⟨_,h,_⟩ => nomatch h⟩
  | ok a => exact ⟨fun h => ⟨a,rfl,by cases h; rfl⟩,fun ⟨_,h,hf⟩ => by cases h; exact congrArg _ hf⟩

theorem bind_eq_error {x : Except ε α} {f : α → Except ε β} {e : ε} :
    (x >>= f) = .error e ↔ x = .error e ∨ ∃ a, x = .ok a ∧ f a = .error e := by
  cases x with
  | error e' => exact ⟨fun h => Or.inl (by cases h; rfl),fun h => h.elim (fun h => by cases h; rfl) nofun⟩
  | ok a => exact ⟨fun h => Or.inr ⟨a,rfl,h⟩,fun h => h.elim nofun fun ⟨_,he,hf⟩ => by cases he; exact hf⟩

/-- Only what a computation gives matters to the next. -/
theorem bind_congr_ok {x : Except ε α} {f g : α → Except ε β} (h : ∀ a, x = .ok a → f a = g a) :
    (x >>= f) = (x >>= g) := by
  cases x with
  | error e => rfl
  | ok a => exact h a rfl

theorem ite_error_eq_ok {c : Prop} [Decidable c] {e : ε} {x : Except ε α} {a : α} :
    (if c then .error e else x) = .ok a ↔ ¬ c ∧ x = .ok a := by
  split
  · next hc => exact ⟨nofun,fun h => absurd hc h.1⟩
  · next hc => exact ⟨fun h => ⟨hc,h⟩,And.right⟩

theorem ite_none_eq_some {c : Prop} [Decidable c] {x : Except ε (Option α)} {a : α} :
    (if c then .ok none else x) = .ok (some a) ↔ ¬ c ∧ x = .ok (some a) := by
  split
  · next hc => exact ⟨nofun,fun h => absurd hc h.1⟩
  · next hc => exact ⟨fun h => ⟨hc,h⟩,And.right⟩

/-- A loop whose turns never fail and append what each finds. -/
theorem foldlM_append_toList {step : List β → α → Except ε (List β)} {find : α → Option β}
    (h : ∀ acc x, step acc x = .ok (acc ++ (find x).toList)) (xs : List α) (acc : List β) :
    xs.foldlM step acc = .ok (acc ++ xs.filterMap find) := by
  induction xs generalizing acc with
  | nil => simp [pure,Except.pure]
  | cons x xs ih =>
    rw [List.foldlM_cons,h]
    refine (ih _).trans ?_
    cases hfound : find x <;> simp [hfound]

/-- All elements went well. -/
theorem mapM_eq_ok {f : α → Except ε β} {xs : List α} {ys : List β} :
    xs.mapM f = .ok ys ↔ List.Forall₂ (fun x y => f x = .ok y) xs ys := by
  induction xs generalizing ys with
  | nil =>
    rw [List.mapM_nil,List.forall₂_nil_left_iff]
    exact ⟨fun h => by cases h; rfl,fun h => by rw [h]; rfl⟩
  | cons x xs ih =>
    rw [List.mapM_cons,bind_eq_ok,List.forall₂_cons_left_iff]
    constructor
    · rintro ⟨y,hy,h⟩
      obtain ⟨rest,hrest,he⟩ := bind_eq_ok.mp h
      cases he
      exact ⟨y,rest,hy,ih.mp hrest,rfl⟩
    · rintro ⟨y,rest,hy,hrest,rfl⟩
      exact ⟨y,hy,bind_eq_ok.mpr ⟨rest,ih.mpr hrest,rfl⟩⟩

theorem map_of_mapM {f : α → Except ε β} {xs : List α} {ys : List β} (h : xs.mapM f = .ok ys) :
    xs.map f = ys.map .ok := by
  rw [mapM_eq_ok] at h
  induction h with
  | nil => rfl
  | cons hhead _ ih => rw [List.map_cons,List.map_cons,hhead,ih]

theorem mem_iff_of_mapM {f : α → Except ε β} {xs : List α} {ys : List β} (h : xs.mapM f = .ok ys) {y : β} :
    y ∈ ys ↔ ∃ x ∈ xs, f x = .ok y := by
  have hmem : (.ok y : Except ε β) ∈ ys.map .ok ↔ y ∈ ys := List.mem_map_of_injective fun _ _ heq => by cases heq; rfl
  rw [← hmem,← map_of_mapM h,List.mem_map]

/-- Some element failed. -/
theorem exists_of_mapM_eq_error {f : α → Except ε β} {xs : List α} {e : ε} (h : xs.mapM f = .error e) :
    ∃ x ∈ xs, f x = .error e := by
  induction xs with
  | nil => cases h
  | cons x xs ih =>
    rw [List.mapM_cons] at h
    rcases bind_eq_error.mp h with hx | ⟨_,_,h⟩
    · exact ⟨x,List.mem_cons_self,hx⟩
    · rcases bind_eq_error.mp h with hrest | ⟨_,_,h⟩
      · obtain ⟨x',hmem,hfails⟩ := ih hrest
        exact ⟨x',List.mem_cons_of_mem x hmem,hfails⟩
      · cases h

theorem exists_mapM_eq_ok {f : α → Except ε β} {P : β → Prop} {xs : List α}
    (h : ∀ x ∈ xs, ∃ y, f x = .ok y ∧ P y) : ∃ ys, xs.mapM f = .ok ys ∧ ∀ y ∈ ys, P y := by
  induction xs with
  | nil => exact ⟨[],rfl,nofun⟩
  | cons x xs ih =>
    obtain ⟨⟨y,hy,hP⟩,hxs⟩ := List.forall_mem_cons.mp h
    obtain ⟨ys,hys,hall⟩ := ih hxs
    refine ⟨y :: ys,?_,List.forall_mem_cons.mpr ⟨hP,hall⟩⟩
    rw [List.mapM_cons,hy,hys]
    rfl

theorem exists_mapM_eq_ok_of_total {f : α → Except ε β} (xs : List α) (h : ∀ x ∈ xs, ∃ y, f x = .ok y) :
    ∃ ys, xs.mapM f = .ok ys := by
  have htotal (x : α) (hx : x ∈ xs) : ∃ y, f x = .ok y ∧ True := (h x hx).imp fun _ hy => ⟨hy,trivial⟩
  obtain ⟨ys,hys,_⟩ := exists_mapM_eq_ok htotal
  exact ⟨ys,hys⟩

theorem mapM_congr {f g : α → Except ε β} {xs : List α} (h : ∀ x ∈ xs, f x = g x) :
    xs.mapM f = xs.mapM g := by
  induction xs with
  | nil => rfl
  | cons x xs ih =>
    obtain ⟨hx,hxs⟩ := List.forall_mem_cons.mp h
    rw [List.mapM_cons,List.mapM_cons,hx,ih hxs]

/-- What is done to each result may be done to all of them afterwards. -/
theorem mapM_eq_zipWith {γ : Type} {f : α → Except ε γ} {g : α → Except ε β} {F : α → β → γ}
    (h : ∀ x, f x = F x <$> g x) (xs : List α) : xs.mapM f = List.zipWith F xs <$> xs.mapM g := by
  induction xs with
  | nil => rfl
  | cons x xs ih =>
    rw [List.mapM_cons,List.mapM_cons,h,ih]
    cases g x with
    | error e => rfl
    | ok y => cases xs.mapM g <;> rfl

theorem mapM_eq_map {γ : Type} {f : α → Except ε γ} {g : α → Except ε β} {F : β → γ} (h : ∀ x, f x = F <$> g x)
    (xs : List α) : xs.mapM f = List.map F <$> xs.mapM g := by
  induction xs with
  | nil => rfl
  | cons x xs ih =>
    rw [List.mapM_cons,List.mapM_cons,h,ih]
    cases g x with
    | error e => rfl
    | ok y => cases xs.mapM g <;> rfl

/-- A search that may fail follows one that may not. -/
theorem findSomeM?_eq {γ : Type} {f : α → Except ε (Option β)} {g : α → Option γ} {h : γ → Except ε β}
    {l : List α} (hf : ∀ a ∈ l, f a = (g a).elim (.ok none) fun c => (h c).map some) :
    l.findSomeM? f = (l.findSome? g).elim (.ok none) fun c => (h c).map some := by
  induction l with
  | nil => rfl
  | cons a l ih =>
    rw [List.findSomeM?_cons,hf a List.mem_cons_self,List.findSome?_cons]
    cases hg : g a with
    | none => exact ih fun b hb => hf b (List.mem_cons_of_mem a hb)
    | some c => cases hc : h c <;> simp [hc,Except.map,bind,Except.bind,pure,Except.pure]

/-! ### Kinds of errors -/

/-- No other error than those of a kind. -/
def FailsOnly (P : ε → Prop) (x : Except ε α) : Prop := ∀ e, x = .error e → P e

variable {P : ε → Prop}

@[simp]
theorem failsOnly_ok (a : α) : FailsOnly P (.ok a : Except ε α) := fun _ h => by cases h

@[simp]
theorem failsOnly_error {e : ε} : FailsOnly P (.error e : Except ε α) ↔ P e :=
  ⟨fun h => h e rfl,fun h _ he => by cases he; exact h⟩

theorem failsOnly_bind {x : Except ε α} {f : α → Except ε β} :
    FailsOnly P (x >>= f) ↔ FailsOnly P x ∧ ∀ a, x = .ok a → FailsOnly P (f a) := by
  cases x with
  | error e =>
    exact ⟨fun h => ⟨failsOnly_error.mpr (h e rfl),fun _ ha => by cases ha⟩,
      fun h => failsOnly_error.mpr (h.1 e rfl)⟩
  | ok a => exact ⟨fun h => ⟨failsOnly_ok a,fun a' ha => by cases ha; exact h⟩,fun h => h.2 a rfl⟩

/-- What corresponds to an element stands at the same place. -/
theorem exists_mem_zip {R : α → β → Prop} {xs : List α} {ys : List β} (h : List.Forall₂ R xs ys) {x : α}
    (hx : x ∈ xs) : ∃ y, (x,y) ∈ xs.zip ys ∧ R x y := by
  induction h with
  | nil => cases hx
  | @cons _ y xs ys hhead _ ih =>
    rcases List.mem_cons.mp hx with rfl | hlater
    · exact ⟨y,List.mem_cons_self,hhead⟩
    · obtain ⟨y',hmem,hrel⟩ := ih hlater
      exact ⟨y',List.mem_cons_of_mem _ hmem,hrel⟩

/-- What two lists have to do with a third one, they have to do with each other. -/
theorem forall₂_of_common {γ : Type} {R : α → β → Prop} {S : α → γ → Prop} {T : β → γ → Prop} {xs : List α}
    {ys : List β} {zs : List γ} (h : List.Forall₂ R xs ys) (h' : List.Forall₂ S xs zs)
    (hrel : ∀ x y z, R x y → S x z → T y z) : List.Forall₂ T ys zs := by
  induction h generalizing zs with
  | nil =>
    cases h'
    exact .nil
  | cons hhead _ ih =>
    cases h' with
    | cons hhead' htail' => exact .cons (hrel _ _ _ hhead hhead') (ih htail')

/-- What holds of the elements of a list holds of what corresponds to them. -/
theorem forall_mem_of_forall₂ {R : α → β → Prop} {P : α → Prop} {Q : β → Prop} {xs : List α} {ys : List β}
    (h : List.Forall₂ R xs ys) (hP : ∀ x ∈ xs, P x) (hrel : ∀ x y, P x → R x y → Q y) : ∀ y ∈ ys, Q y := by
  induction h with
  | nil => exact List.forall_mem_nil _
  | cons hhead _ ih =>
    obtain ⟨hx,hxs⟩ := List.forall_mem_cons.mp hP
    exact List.forall_mem_cons.mpr ⟨hrel _ _ hx hhead,ih hxs⟩

/-- What every turn of a loop keeps, with the elements that are left, holds when none is left. -/
theorem foldlM_invariant {step : β → α → Except ε β} (inv : List α → β → Prop)
    (hstep : ∀ x xs b b', inv (x :: xs) b → step b x = .ok b' → inv xs b') {xs : List α} {b c : β}
    (hinit : inv xs b) (h : xs.foldlM step b = .ok c) : inv [] c := by
  induction xs generalizing b with
  | nil =>
    cases h
    exact hinit
  | cons x xs ih =>
    rw [List.foldlM_cons] at h
    obtain ⟨b',hb,h⟩ := bind_eq_ok.mp h
    exact ih (hstep x xs b b' hinit hb) h

end Pyhems.Library.Fallible

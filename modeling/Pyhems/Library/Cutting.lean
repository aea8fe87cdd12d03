import Mathlib.Algebra.GroupWithZero.Nat
import Mathlib.Data.List.Forall2

/-! Data cut into consecutive slices. Every place of a layout takes a slice of one of its widths,
and the last place may instead take whatever is left as a whole number of items. A layout can have
several cuts; a search that tries the widths in order finds the first one. -/
namespace Pyhems.Library.Cutting
variable {α : Type}

/-- What a place of a layout takes. -/
inductive Place where
  | options (widths : List Nat)
  | rest (itemSize : Nat) (minItems maxItems : Option Nat)

/-- `n` elements make a whole number of items, within the limits. -/
structure Whole (itemSize : Nat) (minItems maxItems : Option Nat) (n : Nat) : Prop where
  pos : 0 < itemSize
  dvd : itemSize ∣ n
  least : ∀ m ∈ minItems, m ≤ n/itemSize
  greatest : ∀ m ∈ maxItems, n/itemSize ≤ m

instance (itemSize : Nat) (minItems maxItems : Option Nat) (n : Nat) :
    Decidable (Whole itemSize minItems maxItems n) :=
  decidable_of_iff (0 < itemSize ∧ itemSize ∣ n ∧ (∀ m ∈ minItems, m ≤ n/itemSize) ∧
    ∀ m ∈ maxItems, n/itemSize ≤ m)
    ⟨fun ⟨pos,dvd,least,greatest⟩ => ⟨pos,dvd,least,greatest⟩,
      fun h => ⟨h.pos,h.dvd,h.least,h.greatest⟩⟩

/-- `choice` gives the number of the width that each place takes; the slices make up the data. -/
inductive Cuts : List Place → List Nat → List α → List (List α) → Prop where
  | nil : Cuts [] [] [] []
  | option {widths : List Nat} {i : Nat} {slice data : List α} {places : List Place}
      {choice : List Nat} {slices : List (List α)} (hwidth : widths[i]? = some slice.length)
      (hrest : Cuts places choice data slices) :
      Cuts (.options widths :: places) (i :: choice) (slice ++ data) (slice :: slices)
  | rest {itemSize : Nat} {minItems maxItems : Option Nat} {data : List α}
      (hwhole : Whole itemSize minItems maxItems data.length) :
      Cuts [.rest itemSize minItems maxItems] [] data [data]

/-- The cut that a search finds: the earlier places keep their first widths if they can. -/
def firstCut : List Place → List α → Option (List (List α))
  | [], data => if data = [] then some [] else none
  | .options widths :: places, data =>
    widths.findSome? fun width =>
      if width ≤ data.length then (firstCut places (data.drop width)).map (data.take width :: ·)
      else none
  | [.rest itemSize minItems maxItems], data =>
    if Whole itemSize minItems maxItems data.length then some [data] else none
  | .rest .. :: _ :: _, _ => none

/-- A cut whose choice comes before every other in the lexicographic order. -/
def First (places : List Place) (choice : List Nat) (data : List α) (slices : List (List α)) : Prop :=
  Cuts places choice data slices ∧ ∀ other slices', Cuts places other data slices' →
    other = choice ∨ choice < other

variable {places : List Place} {choice other : List Nat} {data : List α} {slices slices' : List (List α)}

/-- Nothing is left over, and nothing is read twice. -/
theorem Cuts.flatten (h : Cuts places choice data slices) : slices.flatten = data := by
  induction h with
  | nil => rfl
  | option _ _ ih => rw [List.flatten_cons,ih]
  | rest _ => simp

theorem Cuts.length_slices (h : Cuts places choice data slices) : slices.length = places.length := by
  induction h with
  | nil => rfl
  | option _ _ ih => rw [List.length_cons,List.length_cons,ih]
  | rest _ => rfl

theorem cuts_options {widths : List Nat} : Cuts (.options widths :: places) choice data slices ↔
    ∃ i width rest later, widths[i]? = some width ∧ width ≤ data.length ∧ choice = i :: rest ∧
      slices = data.take width :: later ∧ Cuts places rest (data.drop width) later := by
  constructor
  · intro h
    cases h with
    | option hwidth hrest => exact ⟨_,_,_,_,hwidth,by simp,rfl,by rw [List.take_left],by simpa using hrest⟩
  · rintro ⟨i,width,rest,later,hwidth,hle,rfl,rfl,hrest⟩
    have hlength : (data.take width).length = width := List.length_take_of_le hle
    have h := Cuts.option (hlength.symm ▸ hwidth) hrest
    rwa [List.take_append_drop] at h

/-- A choice fixes the cut. -/
theorem Cuts.unique (h : Cuts places choice data slices) (h' : Cuts places choice data slices') :
    slices' = slices := by
  induction places generalizing choice data slices slices' with
  | nil =>
    cases h
    cases h'
    rfl
  | cons place places ih =>
    cases place with
    | options widths =>
      obtain ⟨i,width,rest,later,hwidth,_,rfl,rfl,hrest⟩ := cuts_options.mp h
      obtain ⟨_,_,_,_,hwidth',_,he,rfl,hrest'⟩ := cuts_options.mp h'
      cases he
      cases hwidth.symm.trans hwidth'
      rw [ih hrest hrest']
    | rest _ _ _ =>
      cases h
      cases h'
      rfl

/-- The search finds nothing only if there is nothing. -/
theorem firstCut_eq_none : firstCut places data = none ↔ ∀ choice slices, ¬ Cuts places choice data slices := by
  induction places generalizing data with
  | nil =>
    rw [firstCut]
    split
    · next hempty =>
      subst hempty
      exact ⟨nofun,fun h => absurd .nil (h [] [])⟩
    · next hne =>
      refine ⟨fun _ choice slices h => ?_,fun _ => rfl⟩
      cases h
      exact hne rfl
  | cons place places ih =>
    cases place with
    | options widths =>
      rw [firstCut,List.findSome?_eq_none_iff]
      constructor
      · intro h choice slices hcuts
        obtain ⟨i,width,rest,later,hwidth,hle,_,_,hrest⟩ := cuts_options.mp hcuts
        have hnone := h width (List.mem_of_getElem? hwidth)
        rw [if_pos hle,Option.map_eq_none_iff] at hnone
        exact ih.mp hnone rest later hrest
      · intro h width hwidth
        split
        · next hle =>
          rw [Option.map_eq_none_iff,ih]
          intro rest later hrest
          obtain ⟨i,hi⟩ := List.mem_iff_getElem?.mp hwidth
          exact h _ _ (cuts_options.mpr ⟨i,width,rest,later,hi,hle,rfl,rfl,hrest⟩)
        · rfl
    | rest itemSize minItems maxItems =>
      cases places with
      | nil =>
        rw [firstCut]
        split
        · next hwhole => exact ⟨nofun,fun h => absurd (.rest hwhole) (h _ _)⟩
        · next hpart =>
          refine ⟨fun _ choice slices h => ?_,fun _ => rfl⟩
          cases h with
          | rest hwhole => exact hpart hwhole
      | cons next places =>
        refine ⟨fun _ choice slices h => ?_,fun _ => rfl⟩
        cases h

/-- What the search finds is the first cut. -/
theorem firstCut_first (h : firstCut places data = some slices) : ∃ choice, First places choice data slices := by
  induction places generalizing data slices with
  | nil =>
    obtain ⟨hempty,hslices⟩ := Option.ite_none_right_eq_some.mp h
    cases hslices
    subst hempty
    refine ⟨[],.nil,fun other slices' hother => ?_⟩
    cases hother
    exact Or.inl rfl
  | cons place places ih =>
    cases place with
    | options widths =>
      obtain ⟨before,width,after,hwidths,hfound,hbefore⟩ := List.findSome?_eq_some_iff.mp h
      obtain ⟨hle,hmap⟩ := Option.ite_none_right_eq_some.mp hfound
      obtain ⟨later,hlater,rfl⟩ := Option.map_eq_some_iff.mp hmap
      obtain ⟨rest,hcuts,hfirst⟩ := ih hlater
      have hwidth : widths[before.length]? = some width := by simp [hwidths]
      refine ⟨before.length :: rest,cuts_options.mpr ⟨_,_,_,_,hwidth,hle,rfl,rfl,hcuts⟩,?_⟩
      intro other slices' hother
      obtain ⟨i,width',rest',later',hwidth',hle',rfl,_,hcuts'⟩ := cuts_options.mp hother
      rcases Nat.lt_trichotomy before.length i with hi | rfl | hi
      · exact Or.inr (.rel hi)
      · cases hwidth.symm.trans hwidth'
        rcases hfirst rest' later' hcuts' with rfl | hlex
        · exact Or.inl rfl
        · exact Or.inr (.cons hlex)
      · -- An earlier width that fits would have been taken.
        have hmem : width' ∈ before := by
          rw [hwidths,List.getElem?_append_left hi] at hwidth'
          exact List.mem_of_getElem? hwidth'
        have hnone := hbefore width' hmem
        rw [if_pos hle',Option.map_eq_none_iff] at hnone
        exact absurd hcuts' (firstCut_eq_none.mp hnone rest' later')
    | rest itemSize minItems maxItems =>
      cases places with
      | nil =>
        obtain ⟨hwhole,hslices⟩ := Option.ite_none_right_eq_some.mp h
        cases hslices
        refine ⟨[],.rest hwhole,fun other slices' hother => ?_⟩
        cases hother
        exact Or.inl rfl
      | cons next places => cases h

/-- A place whose widths agree leaves the search no choice. -/
theorem firstCut_constant {widths : List Nat} {width : Nat} (hne : widths ≠ []) (h : ∀ w ∈ widths, w = width) :
    firstCut (.options widths :: places) data =
      if width ≤ data.length then (firstCut places (data.drop width)).map (data.take width :: ·) else none := by
  rw [firstCut]
  induction widths with
  | nil => exact absurd rfl hne
  | cons w widths ih =>
    obtain ⟨rfl,hrest⟩ := List.forall_mem_cons.mp h
    rw [List.findSome?_cons]
    split
    · next hfound => exact hfound.symm
    · next hnone =>
      rw [hnone]
      by_cases hempty : widths = []
      · rw [hempty,List.findSome?_nil]
      · rw [ih hempty hrest,hnone]

/-- The consecutive slices of given widths. -/
def slicesOf : List Nat → List α → List (List α)
  | [], _ => []
  | width :: widths, data => data.take width :: slicesOf widths (data.drop width)

/-- The place offers one width, possibly more than once. -/
def Place.Fixed (place : Place) (width : Nat) : Prop :=
  ∃ widths, place = .options widths ∧ widths ≠ [] ∧ ∀ w ∈ widths, w = width

/-- Where every place has one width, the search finds the consecutive slices of these widths. -/
theorem firstCut_fixed {widths : List Nat} (h : List.Forall₂ Place.Fixed places widths)
    (hlength : data.length = widths.sum) : firstCut places data = some (slicesOf widths data) := by
  induction h generalizing data with
  | nil =>
    rw [firstCut,if_pos (List.length_eq_zero_iff.mp hlength)]
    rfl
  | @cons place width places widths hfixed _ ih =>
    obtain ⟨options,rfl,hne,hall⟩ := hfixed
    rw [List.sum_cons] at hlength
    have hrest : (data.drop width).length = widths.sum := by
      rw [List.length_drop]
      omega
    rw [firstCut_constant hne hall,if_pos (by omega),ih hrest]
    rfl

theorem flatten_slicesOf {widths : List Nat} (hlength : data.length = widths.sum) :
    (slicesOf widths data).flatten = data := by
  induction widths generalizing data with
  | nil => exact (List.length_eq_zero_iff.mp hlength).symm
  | cons width widths ih =>
    rw [List.sum_cons] at hlength
    have hrest : (data.drop width).length = widths.sum := by
      rw [List.length_drop]
      omega
    rw [slicesOf,List.flatten_cons,ih hrest,List.take_append_drop]

theorem First.unique (h : First places choice data slices) (h' : First places other data slices') :
    other = choice ∧ slices' = slices := by
  have hchoice : other = choice := by
    rcases h.2 other slices' h'.1 with he | hlex
    · exact he
    · rcases h'.2 choice slices h.1 with he | hlex'
      · exact he.symm
      · exact absurd hlex' (List.lt_asymm hlex)
  subst hchoice
  exact ⟨rfl,h.1.unique h'.1⟩

theorem Cuts.length_mem (h : Cuts places choice data slices) {widths : List Nat} {slice : List α}
    (hmem : (.options widths,slice) ∈ places.zip slices) : slice.length ∈ widths := by
  induction h with
  | nil => cases hmem
  | option hwidth _ ih =>
    rcases List.mem_cons.mp hmem with he | hlater
    · cases he
      exact List.mem_of_getElem? hwidth
    · exact ih hlater
  | rest _ =>
    rcases List.mem_cons.mp hmem with he | hlater
    · cases he
    · cases hlater

/-- All cuts of the same data give the same slices. -/
def Unambiguous (α : Type) (places : List Place) : Prop :=
  ∀ (data : List α) choice other slices slices', Cuts places choice data slices →
    Cuts places other data slices' → slices' = slices

/-- A place whose widths are all the same leaves the choice to the others. -/
theorem Unambiguous.cons {widths : List Nat} {width : Nat} (hwidth : ∀ w ∈ widths, w = width)
    (h : Unambiguous α places) : Unambiguous α (.options widths :: places) := by
  intro data choice other slices slices' hcuts hother
  obtain ⟨i,w,rest,later,hi,_,rfl,rfl,hrest⟩ := cuts_options.mp hcuts
  obtain ⟨j,w',rest',later',hj,_,rfl,rfl,hrest'⟩ := cuts_options.mp hother
  cases hwidth w (List.mem_of_getElem? hi)
  cases hwidth w' (List.mem_of_getElem? hj)
  rw [h _ _ _ _ _ hrest hrest']

/-- A place that is alone takes everything. -/
theorem unambiguous_singleton (place : Place) : Unambiguous α [place] := by
  intro data choice other slices slices' hcuts hother
  obtain ⟨slice,rfl⟩ := List.length_eq_one_iff.mp hcuts.length_slices
  obtain ⟨slice',rfl⟩ := List.length_eq_one_iff.mp hother.length_slices
  have hflatten := hother.flatten.trans hcuts.flatten.symm
  rwa [List.flatten_singleton,List.flatten_singleton,← List.singleton_inj] at hflatten

/-- The search finds every cut exactly if it has no choice. -/
theorem unambiguous_iff : Unambiguous α places ↔
    ∀ (data : List α) choice slices, Cuts places choice data slices → firstCut places data = some slices := by
  constructor
  · intro h data choice slices hcuts
    cases hfound : firstCut places data with
    | none => exact absurd hcuts (firstCut_eq_none.mp hfound choice slices)
    | some found =>
      obtain ⟨other,hother⟩ := firstCut_first hfound
      rw [h data choice other slices found hcuts hother.1]
  · intro h data choice other slices slices' hcuts hother
    have hfound := h data choice slices hcuts
    rw [h data other slices' hother] at hfound
    exact Option.some.inj hfound

end Pyhems.Library.Cutting

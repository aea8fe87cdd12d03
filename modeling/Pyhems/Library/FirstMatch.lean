import Mathlib.Data.List.Induction
import Mathlib.Data.List.Nodup
import Mathlib.Data.List.Perm.Subperm

/-! The items that come first for their key, in order of appearance: what a
dictionary filled with `setdefault` keeps when only wanted keys are admitted. -/
namespace Pyhems.Library.FirstMatch
variable {α β : Type} [DecidableEq α] (key : β → α)

/-- Keep an item unless its key is already taken. -/
def setdefault (found : List β) (item : β) : List β :=
  if key item ∈ found.map key then found else found ++ [item]

/-- The first item of every wanted key. -/
def collect (wanted : List α) (items : List β) : List β :=
  items.foldl (fun found item => if key item ∈ wanted then setdefault key found item else found) []

variable {key} {wanted : List α} {items : List β}

@[simp] theorem collect_nil : collect key wanted [] = [] := rfl

theorem collect_concat (item : β) :
    collect key wanted (items ++ [item]) =
      if key item ∈ wanted then setdefault key (collect key wanted items) item
      else collect key wanted items := by
  simp [collect]

theorem mem_keys_setdefault {found : List β} {item : β} {a : α} :
    a ∈ (setdefault key found item).map key ↔ a ∈ found.map key ∨ a = key item := by
  unfold setdefault
  split
  · next h =>
    constructor
    · exact Or.inl
    · rintro (ha | rfl)
      · exact ha
      · exact h
  · simp

/-- A key is collected exactly if it is wanted and some item carries it. -/
theorem mem_keys_collect {a : α} :
    a ∈ (collect key wanted items).map key ↔ a ∈ wanted ∧ ∃ b ∈ items, key b = a := by
  induction items using List.reverseRecOn with
  | nil => simp
  | append_singleton items item ih =>
    rw [collect_concat]
    split
    · next hw =>
      rw [mem_keys_setdefault,ih]
      constructor
      · rintro (⟨ha,b,hb,he⟩ | rfl)
        · exact ⟨ha,b,by simp [hb],he⟩
        · exact ⟨hw,item,by simp,rfl⟩
      · rintro ⟨ha,b,hb,rfl⟩
        rcases List.mem_append.mp hb with hb | hb
        · exact Or.inl ⟨ha,b,hb,rfl⟩
        · exact Or.inr (by rw [List.mem_singleton.mp hb])
    · next hw =>
      rw [ih]
      constructor
      · rintro ⟨ha,b,hb,he⟩
        exact ⟨ha,b,by simp [hb],he⟩
      · rintro ⟨ha,b,hb,rfl⟩
        rcases List.mem_append.mp hb with hb | hb
        · exact ⟨ha,b,hb,rfl⟩
        · rw [List.mem_singleton.mp hb] at ha
          exact absurd ha hw

/-- No key is collected twice. -/
theorem nodup_keys_collect : ((collect key wanted items).map key).Nodup := by
  induction items using List.reverseRecOn with
  | nil => simp
  | append_singleton items item ih =>
    rw [collect_concat]
    unfold setdefault
    split
    · split
      · exact ih
      · next hnew =>
        rw [List.map_append]
        exact List.nodup_append.mpr ⟨ih,by simp,by
          intro a ha b hb he
          simp only [List.map_cons,List.map_nil,List.mem_singleton] at hb
          exact hnew (hb ▸ he ▸ ha)⟩
    · exact ih

/-- For a wanted key the collection answers with the first item that carries it. -/
theorem find_collect {a : α} (ha : a ∈ wanted) :
    (collect key wanted items).find? (fun b => key b == a) = items.find? (fun b => key b == a) := by
  induction items using List.reverseRecOn with
  | nil => rfl
  | append_singleton items item ih =>
    rw [collect_concat,List.find?_append,← ih]
    by_cases he : key item = a
    · rw [if_pos (he ▸ ha),setdefault]
      split
      · next hold =>
        obtain ⟨b,hb,hkey⟩ := List.mem_map.mp hold
        have hsome : ((collect key wanted items).find? (fun b => key b == a)).isSome := by
          rw [List.find?_isSome]
          exact ⟨b,hb,by simp [hkey,he]⟩
        obtain ⟨c,hc⟩ := Option.isSome_iff_exists.mp hsome
        rw [hc]
        rfl
      · rw [List.find?_append]
    · have hskip : [item].find? (fun b => key b == a) = none := by simp [he]
      rw [hskip,Option.or_none]
      split
      · unfold setdefault
        split
        · rfl
        · rw [List.find?_append,hskip,Option.or_none]
      · rfl

/-- Items with unwanted keys change nothing. -/
theorem collect_filter :
    collect key wanted (items.filter (fun b => decide (key b ∈ wanted))) =
      collect key wanted items := by
  induction items using List.reverseRecOn with
  | nil => rfl
  | append_singleton items item ih =>
    rw [List.filter_append,collect_concat]
    by_cases hw : key item ∈ wanted
    · rw [List.filter_cons_of_pos (by simpa using hw),List.filter_nil,collect_concat,if_pos hw,
        if_pos hw,ih]
    · rw [List.filter_cons_of_neg (by simpa using hw),List.filter_nil,List.append_nil,if_neg hw,ih]

/-- Wanted items without a repeated key are all kept, in their order. -/
theorem collect_eq_self (hnodup : (items.map key).Nodup) (hw : ∀ b ∈ items, key b ∈ wanted) :
    collect key wanted items = items := by
  induction items using List.reverseRecOn with
  | nil => rfl
  | append_singleton items item ih =>
    rw [List.map_append] at hnodup
    obtain ⟨hold,_,hdisjoint⟩ := List.nodup_append.mp hnodup
    have hnew : key item ∉ items.map key := fun h => hdisjoint _ h _ (by simp) rfl
    rw [collect_concat,ih hold (fun b hb => hw b (by simp [hb])),if_pos (hw item (by simp)),
      setdefault,if_neg hnew]

/-- The only item that will do is the first one. -/
theorem find?_unique {p : β → Bool} {item : β} (hmem : item ∈ items) (hp : p item)
    (honly : ∀ b ∈ items, p b → b = item) : items.find? p = some item := by
  cases hfound : items.find? p with
  | none => exact absurd hp (List.find?_eq_none.mp hfound item hmem)
  | some b => rw [honly b (List.mem_of_find?_eq_some hfound) (List.find?_some hfound)]

/-- If at most one item will do, the order does not matter. -/
theorem find?_perm {p : β → Bool} {items' : List β} (h : items'.Perm items)
    (honly : ∀ a ∈ items, ∀ b ∈ items, p a → p b → a = b) : items'.find? p = items.find? p := by
  cases hfound : items.find? p with
  | none => exact List.find?_eq_none.mpr fun a ha => List.find?_eq_none.mp hfound a (h.mem_iff.mp ha)
  | some a =>
    have hmem := List.mem_of_find?_eq_some hfound
    have hp := List.find?_some hfound
    exact find?_unique (h.mem_iff.mpr hmem) hp fun b hb hpb => honly b (h.mem_iff.mp hb) a hmem hpb hp

/-- The distinct items, each at its first occurrence: the keys of a dictionary built from
the items. -/
def fromkeys (items : List α) : List α := collect id items items

theorem nodup_fromkeys (items : List α) : (fromkeys items).Nodup := by
  simpa [fromkeys] using @nodup_keys_collect α α _ id items items

theorem mem_fromkeys {items : List α} {a : α} : a ∈ fromkeys items ↔ a ∈ items := by
  simpa [fromkeys] using @mem_keys_collect α α _ id items items a

theorem fromkeys_eq_self {items : List α} (h : items.Nodup) : fromkeys items = items :=
  collect_eq_self (by simpa using h) (fun _ hb => hb)

theorem length_fromkeys_le (items : List α) : (fromkeys items).length ≤ items.length :=
  (List.subperm_of_subset (nodup_fromkeys items) fun _ h => mem_fromkeys.mp h).length_le

/-- The distinct items in the order of their first occurrences. -/
structure FirstOccurrences (items distinct : List α) : Prop where
  nodup : distinct.Nodup
  mem : ∀ a, a ∈ distinct ↔ a ∈ items
  ordered : distinct.Pairwise fun a b => items.idxOf a < items.idxOf b

theorem pairwise_collect {items : List α} :
    (collect id wanted items).Pairwise fun a b => items.idxOf a < items.idxOf b := by
  induction items using List.reverseRecOn with
  | nil => exact .nil
  | append_singleton items item ih =>
    have hmem {a : α} (h : a ∈ collect id wanted items) : a ∈ items := by
      obtain ⟨_,b,hb,rfl⟩ := mem_keys_collect.mp (List.mem_map.mpr ⟨a,h,rfl⟩)
      exact hb
    have hold : (collect id wanted items).Pairwise fun a b =>
        (items ++ [item]).idxOf a < (items ++ [item]).idxOf b := by
      refine ih.imp_of_mem fun ha hb hlt => ?_
      rwa [List.idxOf_append_of_mem (hmem ha),List.idxOf_append_of_mem (hmem hb)]
    rw [collect_concat]
    split
    · next hwanted =>
      unfold setdefault
      split
      · exact hold
      · next hnew =>
        have hnotMem : item ∉ items := fun hin => hnew (mem_keys_collect.mpr ⟨hwanted,item,hin,rfl⟩)
        refine List.pairwise_append.mpr ⟨hold,List.pairwise_singleton _ _,fun a ha b hb => ?_⟩
        rw [List.mem_singleton.mp hb,List.idxOf_append_of_mem (hmem ha),
          List.idxOf_append_of_notMem hnotMem]
        exact Nat.lt_add_right _ (List.idxOf_lt_length_iff.mpr (hmem ha))
    · exact hold

theorem fromkeys_firstOccurrences (items : List α) : FirstOccurrences items (fromkeys items) :=
  ⟨nodup_fromkeys items,fun _ => mem_fromkeys,pairwise_collect⟩

end Pyhems.Library.FirstMatch

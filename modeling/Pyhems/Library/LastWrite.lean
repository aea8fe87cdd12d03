import Mathlib.Data.List.Induction
import Mathlib.Logic.Function.Basic

/-! Partial maps written entry by entry. The last write of a key wins, and a key that is not
written keeps its value. -/
namespace Pyhems.Library.LastWrite
variable {κ α : Type} [DecidableEq κ]

/-- The value of the last write to a key. -/
def latest (writes : List (κ × α)) (key : κ) : Option α :=
  writes.foldl (fun value w => if w.1 = key then some w.2 else value) none

/-- Perform the writes in their order. -/
def writeAll (values : κ → Option α) (writes : List (κ × α)) : κ → Option α :=
  writes.foldl (fun values w => Function.update values w.1 (some w.2)) values

theorem latest_append (writes writes' : List (κ × α)) (key : κ) :
    latest (writes ++ writes') key = (latest writes' key).or (latest writes key) := by
  unfold latest
  rw [List.foldl_append]
  generalize writes.foldl (fun value w => if w.1 = key then some w.2 else value) none = value
  induction writes' using List.reverseRecOn with
  | nil => rfl
  | append_singleton writes' w ih =>
    simp only [List.foldl_append,List.foldl_cons,List.foldl_nil]
    rw [ih]
    split <;> rfl

theorem latest_singleton (w : κ × α) (key : κ) :
    latest [w] key = if w.1 = key then some w.2 else none := rfl

theorem latest_map {β : Type} (f : α → β) (writes : List (κ × α)) (key : κ) :
    latest (writes.map fun w => (w.1,f w.2)) key = (latest writes key).map f := by
  induction writes using List.reverseRecOn with
  | nil => rfl
  | append_singleton writes w ih =>
    rw [List.map_append,List.map_singleton,latest_append,latest_append,latest_singleton,latest_singleton,ih]
    split <;> rfl

/-- Writes to other keys may be left out. -/
theorem latest_filterMap_filter {β : Type} {f : β → Option (κ × α)} {keep : β → Bool} {key : κ} {l : List β}
    (h : ∀ b ∈ l, keep b = false → ∀ w, f b = some w → w.1 ≠ key) :
    latest ((l.filter keep).filterMap f) key = latest (l.filterMap f) key := by
  induction l using List.reverseRecOn with
  | nil => rfl
  | append_singleton l b ih =>
    have hrest := ih fun b hb => h b (List.mem_append_left _ hb)
    rw [List.filter_append,List.filterMap_append,List.filterMap_append,latest_append,latest_append,hrest]
    cases hkeep : keep b with
    | true => rw [List.filter_cons_of_pos hkeep,List.filter_nil]
    | false =>
      rw [List.filter_cons_of_neg (Bool.eq_false_iff.mp hkeep),List.filter_nil]
      cases hwrite : f b with
      | none => simp [hwrite]
      | some w =>
        have hne := h b (List.mem_append_right _ (List.mem_singleton_self b)) hkeep w hwrite
        rw [List.filterMap_cons_some hwrite,List.filterMap_nil,latest_singleton,if_neg hne]
        rfl

/-- The value of a key comes from one of its writes. -/
theorem mem_of_latest {writes : List (κ × α)} {key : κ} {value : α} (h : latest writes key = some value) :
    (key,value) ∈ writes := by
  induction writes using List.reverseRecOn with
  | nil => cases h
  | append_singleton writes w ih =>
    rw [latest_append,latest_singleton] at h
    split at h
    · next hkey =>
      cases h
      subst hkey
      exact List.mem_append_right _ (List.mem_singleton_self _)
    · exact List.mem_append_left _ (ih h)

theorem latest_ne_none {writes : List (κ × α)} {key : κ} {value : α} (h : (key,value) ∈ writes) :
    latest writes key ≠ none := by
  induction writes using List.reverseRecOn with
  | nil => cases h
  | append_singleton writes w ih =>
    rw [latest_append,latest_singleton]
    split
    · exact Option.some_ne_none _
    · next hkey =>
      rcases List.mem_append.mp h with hmem | hmem
      · exact ih hmem
      · cases List.mem_singleton.mp hmem
        exact absurd rfl hkey

theorem writeAll_append (values : κ → Option α) (writes writes' : List (κ × α)) :
    writeAll values (writes ++ writes') = writeAll (writeAll values writes) writes' :=
  List.foldl_append ..

/-- The last write of a key is what the map holds. -/
theorem writeAll_apply (values : κ → Option α) (writes : List (κ × α)) (key : κ) :
    writeAll values writes key = (latest writes key).or (values key) := by
  induction writes using List.reverseRecOn with
  | nil => rfl
  | append_singleton writes w ih =>
    have hlast : writeAll values (writes ++ [w]) =
        Function.update (writeAll values writes) w.1 (some w.2) := writeAll_append ..
    rw [hlast,latest_append,latest_singleton]
    by_cases hkey : w.1 = key
    · subst hkey
      rw [Function.update_self,if_pos rfl]
      rfl
    · rw [Function.update_of_ne (Ne.symm hkey),if_neg hkey,ih]
      rfl

/-- A key that no write names keeps its value. -/
theorem writeAll_of_forall_ne (values : κ → Option α) {writes : List (κ × α)} {key : κ}
    (h : ∀ w ∈ writes, w.1 ≠ key) : writeAll values writes key = values key := by
  induction writes generalizing values with
  | nil => rfl
  | cons w writes ih =>
    have hrest : ∀ w ∈ writes, w.1 ≠ key := fun w hw => h w (List.mem_cons_of_mem _ hw)
    have hne : key ≠ w.1 := Ne.symm (h w List.mem_cons_self)
    rw [writeAll,List.foldl_cons]
    exact (ih _ hrest).trans (Function.update_of_ne hne ..)

end Pyhems.Library.LastWrite

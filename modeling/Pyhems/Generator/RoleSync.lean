import Pyhems.Generator.RoleKeys
import Pyhems.Library.Survivors

/-! The update of a worksheet in place. The rows of properties that are gone are deleted first, and the rows
that stay are refreshed where they were before, so the update is right exactly if no row that is deleted
stands above one that stays. -/
namespace Pyhems.Generator
open Library

/-! ### The update that is meant -/

/-- The property of a row, if the row is the last one of it. -/
def tracked (sheet : List Row) (i : Nat) : Option RoleKey :=
  match sheet[i]?.bind rowKey with
  | some key => if key ∈ (sheet.drop (i+1)).filterMap rowKey then none else some key
  | none => none

/-- The row is of a property that is gone. -/
def gone (rows : List (RoleKey × Row)) (sheet : List Row) (i : Nat) : Bool :=
  (tracked sheet i).any fun key => (Dict.get key rows).isNone

/-- The row is of a property that is still there. -/
def stays (rows : List (RoleKey × Row)) (sheet : List Row) (i : Nat) : Bool :=
  (tracked sheet i).any fun key => (Dict.get key rows).isSome

def overwrite (columns : List Column) (new old : Row) : Row := fun column =>
  if column ∈ columns then new column else old column

/-- A row with the formula for its place below the header. -/
def stamp (i : Nat) (row : Row) : Row := fun column =>
  if column = .status then .text (statusFormula (i+2)) else row column

/-- A row that stays, refreshed; another one is left alone. -/
def refreshed (rows : List (RoleKey × Row)) (sheet : List Row) (row : Row) (i : Nat) : Row × Bool :=
  match (tracked sheet i).bind fun key => Dict.get key rows with
  | some new => (overwrite refreshColumns new row,true)
  | none => (row,false)

/-- The rows of the properties that have none. -/
def newRows (rows : List (RoleKey × Row)) (sheet : List Row) : List (RoleKey × Row) :=
  (rows.filter fun entry => decide (entry.1 ∉ sheet.filterMap rowKey)).insertionSort fun a b => keyLe a.1 b.1

/-- The rows without those of properties that are gone, refreshed, with the new ones below them. -/
def reconciled (rows : List (RoleKey × Row)) (sheet : List Row) : List Row :=
  let kept := (Survivors.survivors (gone rows sheet) sheet).map fun e => refreshed rows sheet e.1 e.2
  let new := (newRows rows sheet).map fun e =>
    (overwrite (refreshColumns ++ [.role,.comment]) e.2 (fun _ => .empty),true)
  (kept ++ new).mapIdx fun i e => if e.2 then stamp i e.1 else e.1

/-! ### The last row of a property -/

theorem tracked_concat (sheet : List Row) (row : Row) (i : Nat) : tracked (sheet ++ [row]) i =
    if i = sheet.length then rowKey row else (tracked sheet i).filter fun key => decide (rowKey row ≠ some key) := by
  obtain hi | rfl | hi := Nat.lt_trichotomy i sheet.length
  · rw [if_neg (Nat.ne_of_lt hi),tracked,tracked,List.getElem?_append_left hi,
      List.drop_append_of_le_length (Nat.succ_le_of_lt hi),List.filterMap_append]
    cases hkey : sheet[i]?.bind rowKey with
    | none => rfl
    | some key =>
      by_cases hlater : key ∈ (sheet.drop (i+1)).filterMap rowKey
      · simp [hlater]
      · by_cases hrow : rowKey row = some key
        · simp [hlater,hrow,Option.filter]
        · simp [hlater,hrow,Option.filter]
  · rw [if_pos rfl,tracked,List.getElem?_concat_length,List.drop_eq_nil_of_le (by simp)]
    cases h : rowKey row <;> simp [h]
  · rw [if_neg (Nat.ne_of_gt hi),tracked,tracked,List.getElem?_eq_none (by simp; omega),
      List.getElem?_eq_none (Nat.le_of_lt hi)]
    rfl

theorem row_of_tracked {sheet : List Row} {i : Nat} {key : RoleKey} (h : tracked sheet i = some key) :
    ∃ row, sheet[i]? = some row ∧ rowKey row = some key := by
  rw [tracked] at h
  split at h
  · next hkey =>
    split at h
    · cases h
    · cases h
      exact Option.bind_eq_some_iff.mp hkey
  · cases h

/-- Something of every row that has a property. -/
def keyed {α : Type} (f : Row → Nat → α) (sheet : List Row) : List (RoleKey × α) :=
  sheet.zipIdx.filterMap fun e => (rowKey e.1).map fun key => (key,f e.1 e.2)

theorem keyed_concat {α : Type} (f : Row → Nat → α) (sheet : List Row) (row : Row) : keyed f (sheet ++ [row]) =
    keyed f sheet ++ ((rowKey row).map fun key => (key,f row sheet.length)).toList := by
  rw [keyed,List.zipIdx_append,List.filterMap_append,keyed,Nat.zero_add,List.zipIdx_singleton]
  cases h : rowKey row <;> simp [h]

/-- The last row of a property counts. -/
theorem latest_keyed_iff {α : Type} {f : Row → Nat → α} {sheet : List Row} {key : RoleKey} {value : α} :
    LastWrite.latest (keyed f sheet) key = some value ↔
      ∃ i row, sheet[i]? = some row ∧ tracked sheet i = some key ∧ f row i = value := by
  induction sheet using List.reverseRecOn with
  | nil => simp [keyed,LastWrite.latest]
  | append_singleton sheet last ih =>
    rw [keyed_concat,LastWrite.latest_append]
    by_cases hlast : rowKey last = some key
    · rw [hlast,Option.map_some,Option.toList_some,LastWrite.latest_singleton,if_pos rfl]
      constructor
      · intro h
        cases h
        refine ⟨sheet.length,last,List.getElem?_concat_length,?_,rfl⟩
        rw [tracked_concat,if_pos rfl,hlast]
      · rintro ⟨i,row,hrow,htracked,rfl⟩
        rw [tracked_concat] at htracked
        split at htracked
        · next hi =>
          rw [hi,List.getElem?_concat_length] at hrow
          cases hrow
          rw [hi]
          rfl
        · obtain ⟨_,hne⟩ := Option.filter_eq_some_iff.mp htracked
          exact absurd hlast (of_decide_eq_true hne)
    · have hnone : LastWrite.latest ((rowKey last).map fun key => (key,f last sheet.length)).toList key = none := by
        cases h : rowKey last with
        | none => rfl
        | some other =>
          rw [h,Option.some_inj] at hlast
          rw [Option.map_some,Option.toList_some,LastWrite.latest_singleton,if_neg hlast]
      rw [hnone,Option.none_or,ih]
      constructor
      · rintro ⟨i,row,hrow,htracked,hvalue⟩
        have hi := (List.getElem?_eq_some_iff.mp hrow).1
        refine ⟨i,row,by rw [List.getElem?_append_left hi,hrow],?_,hvalue⟩
        rw [tracked_concat,if_neg (Nat.ne_of_lt hi),htracked]
        exact Option.filter_eq_some_iff.mpr ⟨rfl,decide_eq_true hlast⟩
      · rintro ⟨i,row,hrow,htracked,hvalue⟩
        rw [tracked_concat] at htracked
        split at htracked
        · exact absurd htracked hlast
        · next hi =>
          obtain hold | ⟨rfl,_⟩ := Survivors.getElem?_concat_iff.mp hrow
          · exact ⟨i,row,hold,(Option.filter_eq_some_iff.mp htracked).1,hvalue⟩
          · exact absurd rfl hi

/-- Every property of the sheet has a row that counts. -/
theorem exists_tracked {sheet : List Row} {key : RoleKey} (h : key ∈ sheet.filterMap rowKey) :
    ∃ i, tracked sheet i = some key := by
  obtain ⟨row,hrow,hkey⟩ := List.mem_filterMap.mp h
  obtain ⟨i,hi⟩ := List.getElem?_of_mem hrow
  have hmem : (key,i) ∈ keyed (fun _ i => i) sheet := by
    refine List.mem_filterMap.mpr ⟨(row,i),List.mk_mem_zipIdx_iff_getElem?.mpr hi,?_⟩
    rw [hkey]
    rfl
  obtain ⟨j,hj⟩ := Option.ne_none_iff_exists'.mp (LastWrite.latest_ne_none hmem)
  obtain ⟨_,_,_,htracked,_⟩ := latest_keyed_iff.mp hj
  exact ⟨_,htracked⟩

/-! ### The operations on the rows -/

namespace Worksheet
variable {W : Type} {ops : Worksheet W}

def rowsOf (ops : Worksheet W) (sheet : W) : List Row := (ops.rowNums sheet).map (ops.cell sheet)

variable (sheet : W)

theorem length_rowsOf : (ops.rowsOf sheet).length = ops.maxRow sheet-1 := by
  rw [rowsOf,rowNums,List.length_map,List.length_range']

theorem getElem?_rowsOf (i : Nat) : (ops.rowsOf sheet)[i]? =
    if i < ops.maxRow sheet-1 then some (ops.cell sheet (i+2)) else none := by
  rw [rowsOf,List.getElem?_map]
  split
  · next hi => rw [rowNums,List.getElem?_range' hi,Option.map_some,Nat.one_mul,Nat.add_comm]
  · next hi =>
    rw [List.getElem?_eq_none,Option.map_none]
    rw [rowNums,List.length_range']
    exact Nat.not_lt.mp hi

theorem zipIdx_rowsOf : (ops.rowsOf sheet).zipIdx = (ops.rowNums sheet).map fun r => (ops.cell sheet r,r-2) := by
  apply List.ext_getElem?
  intro i
  rw [List.getElem?_zipIdx,getElem?_rowsOf,List.getElem?_map,Nat.zero_add,rowNums]
  split
  · next hi =>
    rw [List.getElem?_range' hi,Nat.one_mul,Option.map_some,Option.map_some,Nat.add_sub_cancel_left,Nat.add_comm]
  · next hi =>
    rw [List.getElem?_eq_none (by rw [List.length_range']; exact Nat.not_lt.mp hi)]
    rfl

theorem loadExistingRows_eq : ops.loadExistingRows sheet =
    Dict.ofPairs (keyed (fun row _ column => (row column).str) (ops.rowsOf sheet)) := by
  rw [keyed,zipIdx_rowsOf,List.filterMap_map]
  rfl

theorem keyToRow_eq : ops.keyToRow sheet = Dict.ofPairs (keyed (fun _ i => i+2) (ops.rowsOf sheet)) := by
  rw [keyed,zipIdx_rowsOf,List.filterMap_map,keyToRow]
  congr 1
  apply List.filterMap_congr
  intro rowNum hmem
  have hle := (List.mem_range'_1.mp hmem).1
  rw [Function.comp_apply,Nat.sub_add_cancel hle]

theorem rowsOf_deleteRow (h : ops.Lawful) {i : Nat} (hi : i < (ops.rowsOf sheet).length) :
    ops.rowsOf (ops.deleteRow sheet (i+2)) = (ops.rowsOf sheet).eraseIdx i := by
  rw [length_rowsOf] at hi
  have hmax := h.maxRow_deleteRow sheet (i+2) (by omega) (by omega)
  apply List.ext_getElem?
  intro j
  rw [List.getElem?_eraseIdx,getElem?_rowsOf,getElem?_rowsOf,getElem?_rowsOf,hmax]
  have hcell : ops.cell (ops.deleteRow sheet (i+2)) (j+2) =
      ops.cell sheet (if j < i then j+2 else j+3) := by
    funext column
    rw [h.cell_deleteRow]
    congr 1
    split_ifs <;> omega
  rw [hcell]
  split_ifs <;> first | rfl | omega

theorem cell_setRow (h : ops.Lawful) (columns : List Column) (row : Row) (rowNum rowNum' : Nat) :
    ops.cell (ops.setRow columns row sheet rowNum) rowNum' =
      if rowNum' = rowNum then overwrite columns row (ops.cell sheet rowNum) else ops.cell sheet rowNum' := by
  induction columns generalizing sheet with
  | nil =>
    split
    · next heq => rw [heq]; rfl
    · rfl
  | cons first columns ih =>
    rw [setRow,List.foldl_cons]
    refine (ih _).trans ?_
    funext column
    by_cases hrow : rowNum' = rowNum
    · simp only [if_pos hrow,overwrite,h.cell_setCell,List.mem_cons,true_and]
      by_cases hcolumn : column ∈ columns
      · rw [if_pos hcolumn,if_pos (.inr hcolumn)]
      · by_cases hfirst : column = first
        · rw [if_neg hcolumn,if_pos hfirst,if_pos (.inl hfirst),hfirst]
        · rw [if_neg hcolumn,if_neg hfirst,if_neg (not_or.mpr ⟨hfirst,hcolumn⟩)]
    · rw [if_neg hrow,if_neg hrow,h.cell_setCell,if_neg fun hboth => hrow hboth.1]

theorem maxRow_setRow (h : ops.Lawful) {columns : List Column} (hcolumns : columns ≠ []) (row : Row) (rowNum : Nat) :
    ops.maxRow (ops.setRow columns row sheet rowNum) = max (ops.maxRow sheet) rowNum := by
  induction columns generalizing sheet with
  | nil => exact absurd rfl hcolumns
  | cons first columns ih =>
    rw [setRow,List.foldl_cons]
    by_cases hempty : columns = []
    · rw [hempty,List.foldl_nil,h.maxRow_setCell]
    · refine (ih _ hempty).trans ?_
      rw [h.maxRow_setCell,max_assoc,max_self]

/-! ### Refreshing -/

variable {sheet} {rows : List (RoleKey × Row)} {kept : List (RoleKey × Nat)}

theorem refreshColumns_ne_nil : refreshColumns ≠ [] := by decide

theorem refreshRows_cons (entry : RoleKey × Nat) {row : Row} (hrow : Dict.get entry.1 rows = some row) :
    ops.refreshRows rows (entry :: kept) sheet =
      ops.refreshRows rows kept (ops.setRow refreshColumns row sheet entry.2) := by
  rw [refreshRows,List.foldl_cons,hrow]
  rfl

/-- A row that no entry names is left alone. -/
theorem cell_refreshRows_of_notMem (h : ops.Lawful) (hrows : ∀ e ∈ kept, (Dict.get e.1 rows).isSome = true) {rowNum : Nat}
    (hother : rowNum ∉ kept.map Prod.snd) : ops.cell (ops.refreshRows rows kept sheet) rowNum = ops.cell sheet rowNum := by
  induction kept generalizing sheet with
  | nil => rfl
  | cons entry kept ih =>
    obtain ⟨row,hrow⟩ := Option.isSome_iff_exists.mp (hrows entry List.mem_cons_self)
    rw [List.map_cons,List.mem_cons,not_or] at hother
    rw [refreshRows_cons entry hrow,ih (fun e he => hrows e (List.mem_cons_of_mem _ he)) hother.2,
      cell_setRow _ h,if_neg hother.1]

theorem cell_refreshRows (h : ops.Lawful) (hrows : ∀ e ∈ kept, (Dict.get e.1 rows).isSome = true)
    (hnodup : (kept.map Prod.snd).Nodup) {key : RoleKey} {rowNum : Nat} (hmem : (key,rowNum) ∈ kept) {row : Row}
    (hrow : Dict.get key rows = some row) : ops.cell (ops.refreshRows rows kept sheet) rowNum =
      overwrite refreshColumns row (ops.cell sheet rowNum) := by
  induction kept generalizing sheet with
  | nil => cases hmem
  | cons entry kept ih =>
    obtain ⟨first,hfirst⟩ := Option.isSome_iff_exists.mp (hrows entry List.mem_cons_self)
    obtain ⟨hnew,hrest⟩ := List.nodup_cons.mp hnodup
    have hrows' := fun e he => hrows e (List.mem_cons_of_mem _ he)
    rw [refreshRows_cons entry hfirst]
    obtain rfl | hmem := List.mem_cons.mp hmem
    · cases hfirst.symm.trans hrow
      rw [cell_refreshRows_of_notMem h hrows' hnew,cell_setRow _ h,if_pos rfl]
    · rw [ih hrows' hrest hmem,cell_setRow _ h,if_neg]
      rintro rfl
      exact hnew (List.mem_map.mpr ⟨_,hmem,rfl⟩)

theorem maxRow_refreshRows (h : ops.Lawful) (hrows : ∀ e ∈ kept, (Dict.get e.1 rows).isSome = true) :
    ops.maxRow sheet ≤ ops.maxRow (ops.refreshRows rows kept sheet) ∧
    (∀ e ∈ kept, e.2 ≤ ops.maxRow (ops.refreshRows rows kept sheet)) ∧
    ((∀ e ∈ kept, e.2 ≤ ops.maxRow sheet) → ops.maxRow (ops.refreshRows rows kept sheet) = ops.maxRow sheet) := by
  induction kept generalizing sheet with
  | nil => exact ⟨le_rfl,List.forall_mem_nil _,fun _ => rfl⟩
  | cons entry kept ih =>
    obtain ⟨row,hrow⟩ := Option.isSome_iff_exists.mp (hrows entry List.mem_cons_self)
    rw [refreshRows_cons entry hrow]
    have hset := maxRow_setRow sheet h refreshColumns_ne_nil row entry.2
    obtain ⟨hle,hall,heq⟩ := @ih (ops.setRow refreshColumns row sheet entry.2)
      fun e he => hrows e (List.mem_cons_of_mem _ he)
    rw [hset] at hle heq
    refine ⟨(le_max_left _ _).trans hle,List.forall_mem_cons.mpr ⟨(le_max_right _ _).trans hle,hall⟩,?_⟩
    intro hfit
    obtain ⟨hfirst,hrest⟩ := List.forall_mem_cons.mp hfit
    rw [max_eq_left hfirst] at heq
    exact heq hrest

end Worksheet
end Pyhems.Generator

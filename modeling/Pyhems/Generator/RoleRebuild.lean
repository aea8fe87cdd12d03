import Pyhems.Generator.RoleReload

/-! A worksheet that is written from scratch, because its columns have changed. No row moves there, so the next
run always finds every property as it was left. -/
namespace Pyhems.Generator
open Library

def dataColumns : List Column := visibleColumns.filter (fun c => decide (c ≠ .status)) ++ hiddenColumns

theorem overwrite_dataColumns (new old : Row) :
    overwrite dataColumns new old = overwrite (refreshColumns ++ [.role,.comment]) new old := by
  have hsame : ∀ column : Column, column ∈ dataColumns ↔ column ∈ refreshColumns ++ [.role,.comment] := by
    intro column
    cases column <;> decide
  funext column
  rw [overwrite,overwrite,if_congr (hsame column) rfl rfl]

namespace Worksheet
variable {W : Type} (ops : Worksheet W)

/-- Write rows one below the other, each with its status. -/
def writeRows (rows : List (RoleKey × Row)) (sheet : W) (rowNum : Nat) : W :=
  match rows with
  | [] => sheet
  | e :: rows =>
    let sheet := ops.setRow dataColumns e.2 sheet rowNum
    writeRows rows (ops.setCell sheet rowNum .status (.text (statusFormula rowNum))) (rowNum+1)

/-- `_rebuild_workbook`, from a sheet that has only its header. -/
def rebuild (rows : List (RoleKey × Row)) (blank : W) : W :=
  ops.writeRows (rows.insertionSort fun a b => keyLe a.1 b.1) blank 2

variable {ops} {sheet blank : W} {rows : List (RoleKey × Row)} {current : Current}

theorem cell_writeRow (h : ops.Lawful) (row : Row) (i rowNum : Nat) :
    ops.cell (ops.setCell (ops.setRow dataColumns row sheet (i+2)) (i+2) .status (.text (statusFormula (i+2)))) rowNum =
      if rowNum = i+2 then stamp i (overwrite (refreshColumns ++ [.role,.comment]) row (ops.cell sheet (i+2)))
      else ops.cell sheet rowNum := by
  funext column
  rw [h.cell_setCell,cell_setRow _ h]
  by_cases hrow : rowNum = i+2
  · rw [if_pos hrow,if_pos hrow,overwrite_dataColumns,stamp]
    simp only [hrow,true_and]
  · rw [if_neg hrow,if_neg hrow,if_neg fun hboth => hrow hboth.1]

theorem maxRow_writeRow (h : ops.Lawful) (row : Row) (rowNum : Nat) :
    ops.maxRow (ops.setCell (ops.setRow dataColumns row sheet rowNum) rowNum .status (.text (statusFormula rowNum))) =
      max (ops.maxRow sheet) rowNum := by
  rw [h.maxRow_setCell,maxRow_setRow _ h (by decide),max_assoc,max_self]

theorem maxRow_writeRows (h : ops.Lawful) {rowNum : Nat} (hnext : rowNum = ops.maxRow sheet+1) :
    ops.maxRow (ops.writeRows rows sheet rowNum) = ops.maxRow sheet+rows.length := by
  induction rows generalizing sheet rowNum with
  | nil => rfl
  | cons e rows ih =>
    have hwrite := @maxRow_writeRow W ops sheet h e.2 rowNum
    rw [writeRows,ih (by rw [hwrite]; omega),hwrite,List.length_cons]
    omega

theorem cell_writeRows (h : ops.Lawful) (i j : Nat) : ops.cell (ops.writeRows rows sheet (i+2)) (j+2) =
    if i ≤ j then
      match rows[j-i]? with
      | some e => stamp j (overwrite (refreshColumns ++ [.role,.comment]) e.2 (ops.cell sheet (j+2)))
      | none => ops.cell sheet (j+2)
    else ops.cell sheet (j+2) := by
  induction rows generalizing sheet i with
  | nil => exact (ite_self _).symm
  | cons e rows ih =>
    rw [writeRows,ih (i+1),cell_writeRow h]
    obtain hlt | rfl | hgt := Nat.lt_trichotomy j i
    · rw [if_neg (by omega),if_neg (by omega),if_neg (by omega)]
    · rw [if_neg (by omega),if_pos rfl,if_pos le_rfl,Nat.sub_self]
      rfl
    · have hindex : j-i = j-(i+1)+1 := by omega
      have hother : ¬ j+2 = i+2 := by omega
      rw [if_pos (Nat.succ_le_of_lt hgt),if_pos (Nat.le_of_lt hgt),if_neg hother,hindex,List.getElem?_cons_succ]

/-- The rows of a blank sheet that is rebuilt are those that an update in place would append to it. -/
theorem rowsOf_rebuild (h : ops.Lawful) (hrows : Indexed rows) (hblank : ops.maxRow blank = 1) :
    ops.rowsOf (ops.rebuild rows blank) = ops.rowsOf (ops.updateInPlace rows blank) := by
  have hnil : ops.rowsOf blank = [] := List.eq_nil_of_length_eq_zero (by rw [length_rowsOf,hblank])
  have hlast : GoneLast rows (ops.rowsOf blank) := by
    rw [hnil]
    intro i j hi
    cases hi
  have hnew : newRows rows (ops.rowsOf blank) = rows.insertionSort fun a b => keyLe a.1 b.1 := by
    rw [newRows,List.filter_eq_self.mpr]
    intro e _
    rw [hnil]
    rfl
  rw [rowsOf_updateInPlace h hrows (by omega) hlast,reconciled,hnew,hnil]
  apply List.ext_getElem?
  intro j
  rw [getElem?_rowsOf,rebuild,maxRow_writeRows h (by rw [hblank]),hblank,List.getElem?_mapIdx]
  show _ = Option.map _ ((List.map _ _)[j]?)
  rw [List.getElem?_map]
  split
  · next hj =>
    have he := List.getElem?_eq_getElem (l := rows.insertionSort fun a b => keyLe a.1 b.1) (i := j) (by omega)
    have hempty : ops.cell blank (j+2) = fun _ => .empty := by
      funext column
      exact h.cell_empty _ _ _ (by omega)
    rw [cell_writeRows h 0 j,if_pos (Nat.zero_le _),Nat.sub_zero,he,hempty]
    rfl
  · next hj =>
    rw [List.getElem?_eq_none (by omega)]
    rfl

/-- A sheet that is rebuilt keeps the role and the comment of every property, and the next run finds none new or
changed. -/
theorem resync_rebuilt (h : ops.Lawful) (hcurrent : (current.map Prod.fst).Nodup)
    (existing : List (RoleKey × (Column → String))) (hblank : ops.maxRow blank = 1) :
    buildRows current (ops.loadExistingRows (ops.rebuild (buildRows current existing) blank)) =
      (buildRows current existing).map fun e => (e.1,settled e.2) := by
  have hrows := indexed_buildRows hcurrent existing
  have hnil : ops.rowsOf blank = [] := List.eq_nil_of_length_eq_zero (by rw [length_rowsOf,hblank])
  rw [loadExistingRows_eq,rowsOf_rebuild h hrows hblank,← loadExistingRows_eq]
  apply buildRows_settled
  intro key info hmem
  apply settled_of_new h hcurrent (by omega) existing hmem
  rw [hnil]
  exact List.not_mem_nil

theorem resync_rebuilt_meter :
    let info : PropertyInfo := ⟨"","Measured power","","","required","notApplicable","W","int32"⟩
    let current : Current := [((0x0288,0xE7),info),((0x0288,0xE0),info)]
    let existing : List (RoleKey × (Column → String)) := [((0x0288,0xE7),fun _ => "status")]
    buildRows current (Grid.ops.loadExistingRows (Grid.ops.rebuild (buildRows current existing) (Grid.ofRows []))) =
      (buildRows current existing).map fun e => (e.1,settled e.2) :=
  resync_rebuilt Grid.lawful (by decide) _ rfl

end Worksheet
end Pyhems.Generator

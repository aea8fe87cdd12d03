import Pyhems.Generator.RoleUpdate

/-! The rows of a worksheet after its update. They are the rows that are meant exactly if the rows of properties
that are gone stood below all that stay. -/
namespace Pyhems.Generator
open Library
namespace Worksheet
variable {W : Type} {ops : Worksheet W} {sheet : W} {rows : List (RoleKey × Row)}

theorem isSome_of_mem_keptRows : ∀ e ∈ ops.keptRows rows sheet, (Dict.get e.1 rows).isSome = true := by
  rintro ⟨key,rowNum⟩ he
  obtain ⟨_,_,hget,_⟩ := mem_keptRows.mp he
  exact hget

theorem nodup_keptRows : ((ops.keptRows rows sheet).map Prod.snd).Nodup :=
  nodup_rows_keyToRow.sublist (List.filter_sublist.map Prod.snd)

theorem le_of_mem_keptRows (h : ops.Lawful) :
    ∀ e ∈ ops.keptRows rows sheet, e.2 ≤ ops.maxRow (ops.refreshedSheet rows sheet) :=
  (maxRow_refreshRows h isSome_of_mem_keptRows).2.1

theorem located_eq (hrows : Indexed rows) (sheet' : W) (nextRow : Nat) :
    (ops.appendRows (newRows rows (ops.rowsOf sheet)) sheet' nextRow (ops.keptRows rows sheet)).2 =
      ops.keptRows rows sheet ++ ((newRows rows (ops.rowsOf sheet)).map Prod.fst).zipIdx nextRow := by
  apply located_appendRows (nodup_newRows hrows)
  intro key hkey hkept
  obtain ⟨e,he,rfl⟩ := List.mem_map.mp hkey
  obtain ⟨hmem,hnot⟩ := mem_newRows.mp he
  have hnone : (Dict.get e.1 (ops.keptRows rows sheet)).isNone =
      decide (e.1 ∉ (ops.rowsOf sheet).filterMap rowKey) := get_keptRows_isNone hmem
  rw [decide_eq_true hnot,Option.isNone_iff_eq_none] at hnone
  have hsome := Dict.get_isSome hkept
  rw [hnone] at hsome
  cases hsome

theorem maxRow_updateInPlace (h : ops.Lawful) (hrows : Indexed rows) : ops.maxRow (ops.updateInPlace rows sheet) =
    ops.maxRow (ops.refreshedSheet rows sheet)+(newRows rows (ops.rowsOf sheet)).length := by
  rw [updateInPlace_eq]
  refine (maxRow_stamped h ?_).trans (maxRow_appendRows h rfl)
  intro e he
  rw [maxRow_appendRows h rfl]
  rw [located_eq hrows,List.mem_append] at he
  obtain he | he := he
  · exact (le_of_mem_keptRows h e he).trans (Nat.le_add_right _ _)
  · have hlt := List.snd_lt_add_of_mem_zipIdx he
    rw [List.length_map] at hlt
    omega

/-- The rows above the new ones. -/
theorem cell_updateInPlace_of_le (h : ops.Lawful) (hrows : Indexed rows) {i : Nat}
    (hi : i+2 ≤ ops.maxRow (ops.refreshedSheet rows sheet)) :
    ops.cell (ops.updateInPlace rows sheet) (i+2) =
      if stays rows (ops.rowsOf sheet) i then stamp i (ops.cell (ops.refreshedSheet rows sheet) (i+2))
      else ops.cell (ops.refreshedSheet rows sheet) (i+2) := by
  have happend := @cell_appendRows W ops (ops.refreshedSheet rows sheet) (newRows rows (ops.rowsOf sheet))
    (ops.keptRows rows sheet) h (ops.maxRow (ops.refreshedSheet rows sheet)+1) (i+2)
  rw [if_neg (by omega)] at happend
  have hlocated : i+2 ∈ (ops.keptRows rows sheet ++ ((newRows rows (ops.rowsOf sheet)).map Prod.fst).zipIdx
      (ops.maxRow (ops.refreshedSheet rows sheet)+1)).map Prod.snd ↔ stays rows (ops.rowsOf sheet) i = true := by
    rw [List.map_append,List.mem_append,mem_rows_keptRows,List.zipIdx_map_snd,List.mem_range'_1]
    constructor
    · rintro (hstays | hnew)
      · exact hstays
      · omega
    · exact .inl
  rw [updateInPlace_eq]
  refine (cell_stamped h (i+2)).trans ?_
  rw [located_eq hrows]
  simp only [hlocated]
  rw [happend]
  rfl

/-- The new rows. -/
theorem cell_updateInPlace_new (h : ops.Lawful) (hrows : Indexed rows) {i t : Nat} {e : RoleKey × Row}
    (he : (newRows rows (ops.rowsOf sheet))[t]? = some e)
    (hi : i+2 = ops.maxRow (ops.refreshedSheet rows sheet)+1+t) :
    ops.cell (ops.updateInPlace rows sheet) (i+2) =
      stamp i (overwrite (refreshColumns ++ [.role,.comment]) e.2 fun _ => .empty) := by
  have happend := @cell_appendRows W ops (ops.refreshedSheet rows sheet) (newRows rows (ops.rowsOf sheet))
    (ops.keptRows rows sheet) h (ops.maxRow (ops.refreshedSheet rows sheet)+1) (i+2)
  have hindex : i+2-(ops.maxRow (ops.refreshedSheet rows sheet)+1) = t := by omega
  have hempty : ops.cell (ops.refreshedSheet rows sheet) (i+2) = fun _ => .empty := by
    funext column
    exact h.cell_empty _ _ _ (by omega)
  rw [if_pos (by omega),hindex,he,hempty] at happend
  have hlocated : i+2 ∈ (ops.keptRows rows sheet ++ ((newRows rows (ops.rowsOf sheet)).map Prod.fst).zipIdx
      (ops.maxRow (ops.refreshedSheet rows sheet)+1)).map Prod.snd := by
    have ht := (List.getElem?_eq_some_iff.mp he).1
    rw [List.map_append,List.mem_append,List.zipIdx_map_snd,List.mem_range'_1,List.length_map]
    exact .inr (by omega)
  rw [updateInPlace_eq]
  refine (cell_stamped h (i+2)).trans ?_
  rw [located_eq hrows,if_pos hlocated,happend]
  rfl

/-! ### The rows that are meant -/

theorem refreshedSheet_of_goneLast (h : ops.Lawful) (hmax : 1 ≤ ops.maxRow sheet)
    (hgone : GoneLast rows (ops.rowsOf sheet)) : ops.maxRow (ops.refreshedSheet rows sheet) =
      (Survivors.survivors (gone rows (ops.rowsOf sheet)) (ops.rowsOf sheet)).length+1 := by
  obtain ⟨hrows,hheader⟩ := @rowsOf_deleteGone W ops sheet rows h
  have hlength := congrArg List.length hrows
  rw [length_rowsOf,List.length_map] at hlength
  have hfit := (@maxRow_refreshRows W ops (ops.deleteGone rows (ops.keyToRow sheet) sheet) rows
    (ops.keptRows rows sheet) h isSome_of_mem_keptRows).2.2
  rw [refreshedSheet,hfit]
  · have hone := hheader hmax
    omega
  · rintro ⟨key,rowNum⟩ he
    obtain ⟨i,hkey,hget,rfl⟩ := mem_keptRows.mp he
    obtain ⟨new,hnew⟩ := Option.isSome_iff_exists.mp hget
    have hstays := stays_iff.mpr ⟨key,new,hkey,hnew⟩
    obtain ⟨row,hrow,_⟩ := row_of_tracked hkey
    have hsurvivor := (Survivors.getElem?_survivors _ i row i).mpr
      ⟨hrow,gone_eq_false hstays,(rank_of_stays hgone hstays).symm⟩
    have hlt := (List.getElem?_eq_some_iff.mp hsurvivor).1
    show i+2 ≤ _
    omega

/-- A row that is left, if none moves that stays. -/
theorem cell_refreshedSheet (h : ops.Lawful) (hgone : GoneLast rows (ops.rowsOf sheet)) {q i : Nat} {row : Row}
    (hq : (Survivors.survivors (gone rows (ops.rowsOf sheet)) (ops.rowsOf sheet))[q]? = some (row,i)) :
    ops.cell (ops.refreshedSheet rows sheet) (q+2) = (refreshed rows (ops.rowsOf sheet) row i).1 ∧
    stays rows (ops.rowsOf sheet) q = (refreshed rows (ops.rowsOf sheet) row i).2 := by
  obtain ⟨hrow,hkept,hrank⟩ := (Survivors.getElem?_survivors _ q row i).mp hq
  have hdeleted : ops.cell (ops.deleteGone rows (ops.keyToRow sheet) sheet) (q+2) = row := by
    have hrows := congrArg (·[q]?) (@rowsOf_deleteGone W ops sheet rows h).1
    simp only [List.getElem?_map,hq,Option.map_some,getElem?_rowsOf] at hrows
    split at hrows
    · exact Option.some_inj.mp hrows
    · cases hrows
  by_cases hstays : stays rows (ops.rowsOf sheet) i = true
  · have hqi : q = i := hrank.trans (rank_of_stays hgone hstays)
    subst hqi
    obtain ⟨key,new,hkey,hnew⟩ := stays_iff.mp hstays
    rw [refreshedSheet,cell_refreshRows h isSome_of_mem_keptRows nodup_keptRows
      (mem_keptRows.mpr ⟨q,hkey,by rw [hnew]; rfl,rfl⟩) hnew,hdeleted,refreshed_of_stays hkey hnew]
    exact ⟨rfl,hstays⟩
  · have hother : ¬ stays rows (ops.rowsOf sheet) q = true := by
      intro hq'
      obtain ⟨key,_,hkey,_⟩ := stays_iff.mp hq'
      obtain ⟨row',hrow',_⟩ := row_of_tracked hkey
      have hsame := (Survivors.getElem?_survivors _ q row' q).mpr
        ⟨hrow',gone_eq_false hq',(rank_of_stays hgone hq').symm⟩
      cases hq.symm.trans hsame
      exact hstays hq'
    rw [refreshedSheet,cell_refreshRows_of_notMem h isSome_of_mem_keptRows (mt mem_rows_keptRows.mp hother),hdeleted,
      refreshed_of_not_stays hstays]
    exact ⟨rfl,Bool.eq_false_iff.mpr hother⟩

theorem rowsOf_updateInPlace (h : ops.Lawful) (hrows : Indexed rows) (hmax : 1 ≤ ops.maxRow sheet)
    (hgone : GoneLast rows (ops.rowsOf sheet)) :
    ops.rowsOf (ops.updateInPlace rows sheet) = reconciled rows (ops.rowsOf sheet) := by
  have hrefreshed := refreshedSheet_of_goneLast h hmax hgone
  apply List.ext_getElem?
  intro q
  rw [getElem?_rowsOf,maxRow_updateInPlace h hrows,hrefreshed,reconciled,List.getElem?_mapIdx]
  obtain hq | hq := Nat.lt_or_ge q
    (Survivors.survivors (gone rows (ops.rowsOf sheet)) (ops.rowsOf sheet)).length
  · obtain ⟨⟨row,i⟩,hsurvivor⟩ : ∃ e, (Survivors.survivors (gone rows (ops.rowsOf sheet)) (ops.rowsOf sheet))[q]? =
      some e := ⟨_,List.getElem?_eq_getElem hq⟩
    obtain ⟨hcell,hstays⟩ := cell_refreshedSheet h hgone hsurvivor
    rw [if_pos (by omega),List.getElem?_append_left (by rw [List.length_map]; exact hq),List.getElem?_map,hsurvivor,
      cell_updateInPlace_of_le h hrows (by omega),hcell,hstays]
    rfl
  · rw [List.getElem?_append_right (by rw [List.length_map]; exact hq),List.length_map,List.getElem?_map]
    obtain ht | ht := Nat.lt_or_ge (q-(Survivors.survivors (gone rows (ops.rowsOf sheet)) (ops.rowsOf sheet)).length)
      (newRows rows (ops.rowsOf sheet)).length
    · have he := List.getElem?_eq_getElem ht
      rw [if_pos (by omega),cell_updateInPlace_new h hrows he (by omega),he]
      rfl
    · rw [if_neg (by omega),List.getElem?_eq_none ht]
      rfl

/-- A row that stays is refreshed where it was before. -/
theorem rowKey_updateInPlace (h : ops.Lawful) (hrows : Indexed rows) {i : Nat} {key : RoleKey} {new : Row}
    (hkey : tracked (ops.rowsOf sheet) i = some key) (hnew : Dict.get key rows = some new) :
    ∃ row, (ops.rowsOf (ops.updateInPlace rows sheet))[i]? = some row ∧ rowKey row = some key := by
  have hmem : (key,i+2) ∈ ops.keptRows rows sheet := mem_keptRows.mpr ⟨i,hkey,by rw [hnew]; rfl,rfl⟩
  have hle := le_of_mem_keptRows h _ hmem
  refine ⟨ops.cell (ops.updateInPlace rows sheet) (i+2),?_,?_⟩
  · rw [getElem?_rowsOf,maxRow_updateInPlace h hrows,if_pos]
    simp only at hle
    omega
  · rw [cell_updateInPlace_of_le h hrows hle,if_pos (stays_iff.mpr ⟨key,new,hkey,hnew⟩),rowKey_stamp,refreshedSheet,
      cell_refreshRows h isSome_of_mem_keptRows nodup_keptRows hmem hnew,rowKey_overwrite (by decide) (by decide)]
    exact hrows.rowKey_eq _ (Dict.mem_of_get hnew)

theorem goneLast_of_rowsOf (h : ops.Lawful) (hrows : Indexed rows)
    (heq : ops.rowsOf (ops.updateInPlace rows sheet) = reconciled rows (ops.rowsOf sheet)) :
    GoneLast rows (ops.rowsOf sheet) := by
  intro i j hgone hstays
  by_contra hle
  obtain ⟨key,new,hkey,hnew⟩ := stays_iff.mp hstays
  have hmoved : Survivors.rank (gone rows (ops.rowsOf sheet)) j ≠ j := by
    intro hrank
    have hij : i < j := by
      obtain hij | rfl := Nat.lt_or_eq_of_le (Nat.not_lt.mp hle)
      · exact hij
      · cases (gone_eq_false hstays).symm.trans hgone
    cases ((Survivors.rank_eq_self_iff j).mp hrank i hij).symm.trans hgone
  obtain ⟨row,hrow,hrowkey⟩ := rowKey_updateInPlace h hrows hkey hnew
  rw [heq,reconciled,List.getElem?_mapIdx,Option.map_eq_some_iff] at hrow
  obtain ⟨e,he,rfl⟩ := hrow
  have hekey : rowKey e.1 = some key := by
    split at hrowkey
    · exact hrowkey
    · exact hrowkey
  rw [List.getElem?_append] at he
  split at he
  · rw [List.getElem?_map,Option.map_eq_some_iff] at he
    obtain ⟨⟨x,p⟩,hsurvivor,rfl⟩ := he
    obtain ⟨hx,_,hrank⟩ := (Survivors.getElem?_survivors _ j x p).mp hsurvivor
    rw [rowKey_refreshed hrows hx] at hekey
    have hpj := le_of_tracked hkey hx hekey
    have hrankle : Survivors.rank (gone rows (ops.rowsOf sheet)) p ≤ p := Survivors.rank_le p
    have hp : p = j := by omega
    rw [hp] at hrank
    exact hmoved hrank.symm
  · rw [List.getElem?_map,Option.map_eq_some_iff] at he
    obtain ⟨e',he',rfl⟩ := he
    obtain ⟨hmem,hnot⟩ := mem_newRows.mp (List.mem_of_getElem? he')
    rw [rowKey_overwrite (by decide) (by decide),hrows.rowKey_eq _ hmem,Option.some_inj] at hekey
    obtain ⟨x,hx,hxkey⟩ := row_of_tracked hkey
    rw [hekey] at hnot
    exact hnot (List.mem_filterMap.mpr ⟨x,List.mem_of_getElem? hx,hxkey⟩)

end Worksheet

theorem indexed_buildRows {current : Current} (h : (current.map Prod.fst).Nodup)
    (existing : List (RoleKey × (Column → String))) : Indexed (buildRows current existing) := by
  constructor
  · have hperm := (List.perm_insertionSort (fun a b : (Nat × Nat) × PropertyInfo => keyLe (roleKey a.1) (roleKey b.1))
      current).map fun e => roleKey e.1
    have hinj : Function.Injective roleKey := by
      rintro ⟨a,b⟩ ⟨c,d⟩ heq
      simpa [roleKey] using heq
    rw [buildRows,List.map_map]
    have hkeys := h.map hinj
    rw [List.map_map] at hkeys
    exact hperm.nodup_iff.mpr hkeys
  · intro e he
    rw [buildRows,List.mem_map] at he
    obtain ⟨entry,_,rfl⟩ := he
    exact rowKey_buildRow _ _ _

/-! ### A worksheet -/

/-- The cells of a sheet; there are none below its last row. -/
structure Grid where
  maxRow : Nat
  cells : Nat → Row
  empty : ∀ rowNum, maxRow < rowNum → cells rowNum = fun _ => .empty

namespace Grid

def setCell (grid : Grid) (rowNum : Nat) (column : Column) (value : Cell) : Grid where
  maxRow := max grid.maxRow rowNum
  cells := fun r c => if r = rowNum ∧ c = column then value else grid.cells r c
  empty := fun r hr => by
    funext c
    rw [if_neg (by omega),grid.empty r (by omega)]

def deleteRow (grid : Grid) (rowNum : Nat) : Grid where
  maxRow := if 1 ≤ rowNum ∧ rowNum ≤ grid.maxRow then grid.maxRow-1 else grid.maxRow
  cells := fun r => grid.cells (if r < rowNum then r else r+1)
  empty := fun r hr => by
    apply grid.empty
    split_ifs at hr ⊢ <;> omega

def ops : Worksheet Grid where
  cell := cells
  setCell := setCell
  deleteRow := deleteRow
  maxRow := maxRow

theorem lawful : ops.Lawful where
  cell_setCell _ _ _ _ _ _ := rfl
  maxRow_setCell _ _ _ _ := rfl
  cell_deleteRow _ _ _ _ := rfl
  maxRow_deleteRow _ _ hone hle := if_pos ⟨hone,hle⟩
  cell_empty grid rowNum column h := congrFun (grid.empty rowNum h) column

/-- A header with rows below it. -/
def ofRows (rows : List Row) : Grid where
  maxRow := rows.length+1
  cells
    | 0 | 1 => fun _ => .empty
    | i+2 => (rows[i]?).getD fun _ => .empty
  empty
    | 0, h | 1, h => by omega
    | i+2, h =>
      have hnone : rows[i]? = none := List.getElem?_eq_none (by omega)
      congrArg (Option.getD · fun _ => .empty) hnone

end Grid

namespace Worksheet
variable {W : Type} {ops : Worksheet W} {sheet : W} {current : Current}

/-- The rows that the script writes are those that are meant exactly if no row that it deletes stands above
one that stays. -/
theorem reconciled_iff (h : ops.Lawful) (hcurrent : (current.map Prod.fst).Nodup) (hmax : 1 ≤ ops.maxRow sheet) :
    ops.rowsOf (ops.updateInPlace (buildRows current (ops.loadExistingRows sheet)) sheet) =
      reconciled (buildRows current (ops.loadExistingRows sheet)) (ops.rowsOf sheet) ↔
    GoneLast (buildRows current (ops.loadExistingRows sheet)) (ops.rowsOf sheet) :=
  ⟨goneLast_of_rowsOf h (indexed_buildRows hcurrent _),rowsOf_updateInPlace h (indexed_buildRows hcurrent _) hmax⟩

end Worksheet

/-- A property that is gone stands above one that stays. -/
theorem reconciled_iff_meter :
    let info : PropertyInfo := ⟨"","Measured power","","","required","notApplicable","W","int32"⟩
    let sheet := Grid.ofRows [buildRow 0x0288 0xE0 info none,buildRow 0x0288 0xE7 info none]
    let rows := buildRows [((0x0288,0xE7),info)] (Grid.ops.loadExistingRows sheet)
    Grid.ops.rowsOf (Grid.ops.updateInPlace rows sheet) ≠ reconciled rows (Grid.ops.rowsOf sheet) := by
  intro info sheet rows heq
  have hlast := (Worksheet.reconciled_iff Grid.lawful (by decide) (by decide)).mp heq
  have hgone : gone rows (Grid.ops.rowsOf sheet) 0 = true := by decide +kernel
  have hstays : stays rows (Grid.ops.rowsOf sheet) 1 = true := by decide +kernel
  exact Nat.not_lt_zero 1 (hlast 0 1 hgone hstays)

end Pyhems.Generator

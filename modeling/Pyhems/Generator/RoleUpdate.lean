import Pyhems.Generator.RoleSync

/-! What the update of a worksheet leaves in its rows, operation by operation. -/
namespace Pyhems.Generator
open Library
namespace Worksheet
variable {W : Type} {ops : Worksheet W} {sheet : W} {rows : List (RoleKey × Row)}

theorem mem_keyToRow {key : RoleKey} {rowNum : Nat} : (key,rowNum) ∈ ops.keyToRow sheet ↔
    ∃ i, tracked (ops.rowsOf sheet) i = some key ∧ i+2 = rowNum := by
  rw [keyToRow_eq,← Dict.get_eq_some (Dict.nodup_keys_ofPairs _),Dict.get_ofPairs,latest_keyed_iff]
  constructor
  · rintro ⟨i,_,_,htracked,hi⟩
    exact ⟨i,htracked,hi⟩
  · rintro ⟨i,htracked,hi⟩
    obtain ⟨row,hrow,_⟩ := row_of_tracked htracked
    exact ⟨i,row,hrow,htracked,hi⟩

theorem nodup_rows_keyToRow : ((ops.keyToRow sheet).map Prod.snd).Nodup := by
  apply List.Nodup.map_on
  · rintro ⟨key,rowNum⟩ he ⟨key',rowNum'⟩ he' heq
    obtain ⟨i,hi,rfl⟩ := mem_keyToRow.mp he
    obtain ⟨j,hj,rfl⟩ := mem_keyToRow.mp he'
    cases Nat.add_right_cancel heq
    cases hi.symm.trans hj
    rfl
  · exact List.Nodup.of_map _ (by rw [keyToRow_eq]; exact Dict.nodup_keys_ofPairs _)

theorem lt_of_tracked {i : Nat} {key : RoleKey} (h : tracked (ops.rowsOf sheet) i = some key) :
    i+2 ≤ ops.maxRow sheet := by
  obtain ⟨row,hrow,_⟩ := row_of_tracked h
  have hi := (List.getElem?_eq_some_iff.mp hrow).1
  rw [length_rowsOf] at hi
  omega

/-! ### Deleting -/

/-- Rows that are deleted from the last one up are those that stood there before. -/
theorem rowsOf_foldl_deleteRow (h : ops.Lawful) {entries : List (RoleKey × Nat)}
    (hdescending : entries.Pairwise fun a b => b.2 < a.2)
    (hrange : ∀ e ∈ entries, ∃ i, e.2 = i+2 ∧ i < (ops.rowsOf sheet).length) :
    ops.rowsOf (entries.foldl (fun sheet e => if (Dict.get e.1 rows).isSome then sheet else ops.deleteRow sheet e.2)
        sheet) =
      ((entries.filter fun e => (Dict.get e.1 rows).isNone).map fun e => e.2-2).foldl List.eraseIdx
        (ops.rowsOf sheet) ∧
    (1 ≤ ops.maxRow sheet → 1 ≤ ops.maxRow (entries.foldl (fun sheet e =>
      if (Dict.get e.1 rows).isSome then sheet else ops.deleteRow sheet e.2) sheet)) := by
  induction entries generalizing sheet with
  | nil => exact ⟨rfl,id⟩
  | cons entry entries ih =>
    obtain ⟨hbelow,hrest⟩ := List.pairwise_cons.mp hdescending
    obtain ⟨hentry,hentries⟩ := List.forall_mem_cons.mp hrange
    obtain ⟨i,hi,hlt⟩ := hentry
    rw [List.foldl_cons]
    cases hkey : Dict.get entry.1 rows with
    | some row =>
      rw [Option.isSome_some,if_pos rfl,List.filter_cons_of_neg (by rw [hkey]; exact Bool.false_ne_true)]
      exact ih hrest hentries
    | none =>
      have herase := rowsOf_deleteRow sheet h hlt
      rw [Option.isSome_none,if_neg Bool.false_ne_true,List.filter_cons_of_pos (by rw [hkey]; rfl),List.map_cons,
        List.foldl_cons,hi,Nat.add_sub_cancel,← herase]
      have hrange' : ∀ e ∈ entries, ∃ j, e.2 = j+2 ∧ j < (ops.rowsOf (ops.deleteRow sheet (i+2))).length := by
        intro e he
        obtain ⟨j,hj,_⟩ := hentries e he
        have hji := hbelow e he
        refine ⟨j,hj,?_⟩
        rw [herase,List.length_eraseIdx_of_lt hlt]
        omega
      obtain ⟨hrows,hmax⟩ := ih hrest hrange'
      refine ⟨hrows,fun _ => hmax ?_⟩
      rw [length_rowsOf] at hlt
      rw [h.maxRow_deleteRow sheet (i+2) (by omega) (by omega)]
      omega

theorem mem_gone {i : Nat} : gone rows (ops.rowsOf sheet) i = true ↔
    ∃ e ∈ ops.keyToRow sheet, (Dict.get e.1 rows).isNone = true ∧ e.2 = i+2 := by
  rw [gone,Option.any_eq_true_iff_get]
  constructor
  · rintro ⟨hsome,hnone⟩
    exact ⟨(_,i+2),mem_keyToRow.mpr ⟨i,Option.some_get hsome |>.symm,rfl⟩,hnone,rfl⟩
  · rintro ⟨⟨key,rowNum⟩,hmem,hnone,rfl⟩
    obtain ⟨j,htracked,hj⟩ := mem_keyToRow.mp hmem
    cases Nat.add_right_cancel hj
    exact ⟨by rw [htracked]; rfl,by simpa [htracked] using hnone⟩

theorem rowsOf_deleteGone (h : ops.Lawful) : ops.rowsOf (ops.deleteGone rows (ops.keyToRow sheet) sheet) =
      (Survivors.survivors (gone rows (ops.rowsOf sheet)) (ops.rowsOf sheet)).map Prod.fst ∧
    (1 ≤ ops.maxRow sheet → 1 ≤ ops.maxRow (ops.deleteGone rows (ops.keyToRow sheet) sheet)) := by
  generalize hsorted : (ops.keyToRow sheet).insertionSort (fun a b => b.2 ≤ a.2) = entries
  have hperm : entries.Perm (ops.keyToRow sheet) := hsorted ▸ List.perm_insertionSort _ _
  have hdescending : entries.Pairwise fun a b => b.2 < a.2 := by
    have htotal : Std.Total fun a b : RoleKey × Nat => b.2 ≤ a.2 := ⟨fun a b => Nat.le_total _ _⟩
    have htrans : IsTrans (RoleKey × Nat) fun a b => b.2 ≤ a.2 := ⟨fun a b c hab hbc => hbc.trans hab⟩
    have hle := List.pairwise_insertionSort (fun a b : RoleKey × Nat => b.2 ≤ a.2) (ops.keyToRow sheet)
    have hne := List.pairwise_map.mp ((hperm.map Prod.snd).nodup_iff.mpr nodup_rows_keyToRow)
    rw [hsorted] at hle
    exact hle.imp₂ (fun _ _ hle hne => Nat.lt_of_le_of_ne hle (Ne.symm hne)) hne
  have hrange : ∀ e ∈ entries, ∃ i, e.2 = i+2 ∧ i < (ops.rowsOf sheet).length := by
    rintro ⟨key,rowNum⟩ he
    obtain ⟨i,htracked,rfl⟩ := mem_keyToRow.mp (hperm.mem_iff.mp he)
    have hle := lt_of_tracked htracked
    rw [length_rowsOf]
    exact ⟨i,rfl,by omega⟩
  obtain ⟨hrows,hmax⟩ := rowsOf_foldl_deleteRow h hdescending hrange
  rw [deleteGone,hsorted]
  refine ⟨hrows.trans ?_,hmax⟩
  rw [Survivors.foldl_eraseIdx]
  · congr 1
    apply Survivors.survivors_congr
    intro i _
    rw [Bool.eq_iff_iff,decide_eq_true_iff,mem_gone,List.mem_map]
    constructor
    · rintro ⟨e,he,hi⟩
      obtain ⟨hmem,hnone⟩ := List.mem_filter.mp he
      obtain ⟨j,hj,_⟩ := hrange e hmem
      exact ⟨e,hperm.mem_iff.mp hmem,hnone,by omega⟩
    · rintro ⟨e,he,hnone,hi⟩
      exact ⟨e,List.mem_filter.mpr ⟨hperm.mem_iff.mpr he,hnone⟩,by omega⟩
  · rw [List.pairwise_map]
    refine (hdescending.filter _).imp_of_mem fun {a b} ha hb hlt => ?_
    obtain ⟨i,hi,_⟩ := hrange b (List.mem_of_mem_filter hb)
    omega
  · intro i hi
    obtain ⟨e,he,rfl⟩ := List.mem_map.mp hi
    obtain ⟨j,hj,hlt⟩ := hrange e (List.mem_of_mem_filter he)
    omega

/-! ### Appending -/

variable {new : List (RoleKey × Row)} {located : List (RoleKey × Nat)}

theorem cell_appendRows (h : ops.Lawful) (nextRow rowNum : Nat) :
    ops.cell (ops.appendRows new sheet nextRow located).1 rowNum =
      if nextRow ≤ rowNum then
        match new[rowNum-nextRow]? with
        | some e => overwrite (refreshColumns ++ [.role,.comment]) e.2 (ops.cell sheet rowNum)
        | none => ops.cell sheet rowNum
      else ops.cell sheet rowNum := by
  induction new generalizing sheet nextRow located with
  | nil => exact (ite_self _).symm
  | cons e new ih =>
    rw [appendRows,ih,cell_setRow _ h]
    obtain hlt | rfl | hgt := Nat.lt_trichotomy rowNum nextRow
    · rw [if_neg (by omega),if_neg (by omega),if_neg (by omega)]
    · rw [if_neg (by omega),if_pos rfl,if_pos le_rfl,Nat.sub_self]
      rfl
    · have hindex : rowNum-nextRow = rowNum-(nextRow+1)+1 := by omega
      rw [if_pos (Nat.succ_le_of_lt hgt),if_pos (Nat.le_of_lt hgt),if_neg (Nat.ne_of_gt hgt),hindex,
        List.getElem?_cons_succ]

theorem maxRow_appendRows (h : ops.Lawful) {nextRow : Nat} (hnext : nextRow = ops.maxRow sheet+1) :
    ops.maxRow (ops.appendRows new sheet nextRow located).1 = ops.maxRow sheet+new.length := by
  induction new generalizing sheet nextRow located with
  | nil => rfl
  | cons e new ih =>
    have hset := maxRow_setRow sheet h (List.append_ne_nil_of_left_ne_nil refreshColumns_ne_nil [.role,.comment]) e.2
      nextRow
    rw [appendRows,ih (by rw [hset]; omega),hset,List.length_cons]
    omega

theorem located_appendRows {nextRow : Nat} (hnodup : (new.map Prod.fst).Nodup)
    (hnew : ∀ key ∈ new.map Prod.fst, key ∉ located.map Prod.fst) :
    (ops.appendRows new sheet nextRow located).2 =
      located ++ (new.map Prod.fst).zipIdx nextRow := by
  induction new generalizing sheet nextRow located with
  | nil => exact (List.append_nil _).symm
  | cons e new ih =>
    obtain ⟨hfirst,hrest⟩ := List.nodup_cons.mp hnodup
    obtain ⟨he,hnew⟩ := List.forall_mem_cons.mp hnew
    rw [appendRows,Dict.insert_of_notMem he,ih hrest,List.map_cons,List.zipIdx_cons,List.append_assoc]
    · rfl
    · intro key hkey
      rw [List.map_append,List.mem_append,not_or]
      refine ⟨hnew key hkey,?_⟩
      rintro hlast
      rw [List.map_singleton,List.mem_singleton] at hlast
      exact hfirst (hlast ▸ hkey)

/-! ### The status -/

theorem cell_stamped (h : ops.Lawful) (rowNum : Nat) :
    ops.cell (located.foldl (fun sheet e => ops.setCell sheet e.2 .status (.text (statusFormula e.2))) sheet) rowNum =
      if rowNum ∈ located.map Prod.snd then
        fun column => if column = .status then .text (statusFormula rowNum) else ops.cell sheet rowNum column
      else ops.cell sheet rowNum := by
  induction located generalizing sheet with
  | nil => rfl
  | cons e located ih =>
    rw [List.foldl_cons,ih,List.map_cons]
    by_cases hrow : rowNum = e.2
    · rw [if_pos (List.mem_cons.mpr (.inl hrow))]
      split <;> funext column <;> by_cases hcolumn : column = .status <;> simp [h.cell_setCell,hrow,hcolumn]
    · have hsame : ops.cell (ops.setCell sheet e.2 .status (.text (statusFormula e.2))) rowNum =
          ops.cell sheet rowNum := by
        funext column
        rw [h.cell_setCell,if_neg fun hboth => hrow hboth.1]
      rw [hsame]
      simp only [List.mem_cons,hrow,false_or]

theorem maxRow_stamped (h : ops.Lawful) (hrange : ∀ e ∈ located, e.2 ≤ ops.maxRow sheet) :
    ops.maxRow (located.foldl (fun sheet e => ops.setCell sheet e.2 .status (.text (statusFormula e.2))) sheet) =
      ops.maxRow sheet := by
  induction located generalizing sheet with
  | nil => rfl
  | cons e located ih =>
    obtain ⟨hfirst,hrest⟩ := List.forall_mem_cons.mp hrange
    have hset := h.maxRow_setCell sheet e.2 .status (.text (statusFormula e.2))
    rw [max_eq_left hfirst] at hset
    rw [List.foldl_cons,ih (by rw [hset]; exact hrest),hset]

end Worksheet

/-! ### The rows of the update -/

/-- Rows by their properties. -/
structure Indexed (rows : List (RoleKey × Row)) : Prop where
  nodup : (rows.map Prod.fst).Nodup
  rowKey_eq : ∀ e ∈ rows, rowKey e.2 = some e.1

/-- The rows of properties that are gone stand below all that stay. -/
def GoneLast (rows : List (RoleKey × Row)) (sheet : List Row) : Prop :=
  ∀ i j, gone rows sheet i = true → stays rows sheet j = true → j < i

variable {rows : List (RoleKey × Row)} {sheet : List Row} {i : Nat} {row : Row}

theorem le_of_tracked {key : RoleKey} {p : Nat} (h : tracked sheet p = some key) (hrow : sheet[i]? = some row)
    (hkey : rowKey row = some key) : i ≤ p := by
  by_contra hlt
  have hdrop : row ∈ sheet.drop (p+1) := by
    apply List.mem_of_getElem? (i := i-(p+1))
    rw [List.getElem?_drop,Nat.add_sub_of_le (Nat.not_le.mp hlt),hrow]
  have hlater : key ∈ (sheet.drop (p+1)).filterMap rowKey := List.mem_filterMap.mpr ⟨row,hdrop,hkey⟩
  rw [tracked] at h
  split at h
  · split at h
    · cases h
    · next hlast =>
      cases h
      exact hlast hlater
  · cases h

theorem rowKey_overwrite {columns : List Column} (hclass : .classCode ∈ columns) (hepc : .epc ∈ columns) (new old : Row) :
    rowKey (overwrite columns new old) = rowKey new := by
  rw [rowKey,overwrite,overwrite,if_pos hclass,if_pos hepc]
  rfl

theorem rowKey_stamp : rowKey (stamp i row) = rowKey row := rfl

theorem rowKey_refreshed (h : Indexed rows) (hrow : sheet[i]? = some row) :
    rowKey (refreshed rows sheet row i).1 = rowKey row := by
  rw [refreshed]
  split
  · next new hnew =>
    obtain ⟨key,htracked,hget⟩ := Option.bind_eq_some_iff.mp hnew
    obtain ⟨row',hrow',hkey⟩ := row_of_tracked htracked
    cases hrow.symm.trans hrow'
    rw [rowKey_overwrite (by decide) (by decide),hkey]
    exact h.rowKey_eq _ (Dict.mem_of_get hget)
  · rfl

theorem stays_iff : stays rows sheet i = true ↔ ∃ key new, tracked sheet i = some key ∧ Dict.get key rows = some new := by
  rw [stays,Option.any_eq_true]
  constructor
  · rintro ⟨key,hkey,hget⟩
    obtain ⟨new,hnew⟩ := Option.isSome_iff_exists.mp hget
    exact ⟨key,new,hkey,hnew⟩
  · rintro ⟨key,new,hkey,hnew⟩
    exact ⟨key,hkey,by rw [hnew]; rfl⟩

theorem gone_eq_false (h : stays rows sheet i = true) : gone rows sheet i = false := by
  obtain ⟨key,new,hkey,hnew⟩ := stays_iff.mp h
  rw [gone,hkey,Option.any_some,hnew]
  rfl

/-- Rows that stay do not move if those that are gone are all below them. -/
theorem rank_of_stays (h : GoneLast rows sheet) (hi : stays rows sheet i = true) :
    Survivors.rank (gone rows sheet) i = i := by
  rw [Survivors.rank_eq_self_iff]
  intro j hj
  by_contra hgone
  exact Nat.lt_asymm hj (h j i (Bool.eq_true_of_not_eq_false hgone) hi)

theorem refreshed_of_stays {key : RoleKey} {new : Row} (hkey : tracked sheet i = some key)
    (hnew : Dict.get key rows = some new) : refreshed rows sheet row i = (overwrite refreshColumns new row,true) := by
  rw [refreshed,hkey,Option.bind_some,hnew]

theorem refreshed_of_not_stays (h : ¬ stays rows sheet i = true) : refreshed rows sheet row i = (row,false) := by
  rw [refreshed]
  split
  · next new hnew =>
    obtain ⟨key,hkey,hget⟩ := Option.bind_eq_some_iff.mp hnew
    exact absurd (stays_iff.mpr ⟨key,new,hkey,hget⟩) h
  · rfl

/-- The keys of the new rows are those that the sheet does not have. -/
theorem mem_newRows {e : RoleKey × Row} :
    e ∈ newRows rows sheet ↔ e ∈ rows ∧ e.1 ∉ sheet.filterMap rowKey := by
  rw [newRows,List.mem_insertionSort,List.mem_filter,decide_eq_true_iff]

theorem nodup_newRows (h : Indexed rows) : ((newRows rows sheet).map Prod.fst).Nodup := by
  have hperm := (List.perm_insertionSort (fun a b : RoleKey × Row => keyLe a.1 b.1)
    (rows.filter fun entry => decide (entry.1 ∉ sheet.filterMap rowKey))).map Prod.fst
  exact hperm.nodup_iff.mpr (h.nodup.sublist (List.filter_sublist.map Prod.fst))

namespace Worksheet
variable {W : Type} {ops : Worksheet W} {sheet : W} {rowNum : Nat}

/-- The rows that stay, where they were. -/
def keptRows (ops : Worksheet W) (rows : List (RoleKey × Row)) (sheet : W) : List (RoleKey × Nat) :=
  (ops.keyToRow sheet).filter fun e => (Dict.get e.1 rows).isSome

/-- The sheet before the new rows are appended. -/
def refreshedSheet (ops : Worksheet W) (rows : List (RoleKey × Row)) (sheet : W) : W :=
  ops.refreshRows rows (ops.keptRows rows sheet) (ops.deleteGone rows (ops.keyToRow sheet) sheet)

theorem mem_keptRows {key : RoleKey} : (key,rowNum) ∈ ops.keptRows rows sheet ↔
    ∃ i, tracked (ops.rowsOf sheet) i = some key ∧ (Dict.get key rows).isSome = true ∧ i+2 = rowNum := by
  rw [keptRows,List.mem_filter,mem_keyToRow]
  constructor
  · rintro ⟨⟨i,hkey,hi⟩,hget⟩
    exact ⟨i,hkey,hget,hi⟩
  · rintro ⟨i,hkey,hget,hi⟩
    exact ⟨⟨i,hkey,hi⟩,hget⟩

theorem mem_rows_keptRows {i : Nat} :
    i+2 ∈ (ops.keptRows rows sheet).map Prod.snd ↔ stays rows (ops.rowsOf sheet) i = true := by
  rw [List.mem_map,stays_iff]
  constructor
  · rintro ⟨⟨key,rowNum⟩,hmem,rfl⟩
    obtain ⟨j,hkey,hget,hj⟩ := mem_keptRows.mp hmem
    cases Nat.add_right_cancel hj
    obtain ⟨new,hnew⟩ := Option.isSome_iff_exists.mp hget
    exact ⟨key,new,hkey,hnew⟩
  · rintro ⟨key,new,hkey,hnew⟩
    exact ⟨(key,i+2),mem_keptRows.mpr ⟨i,hkey,by rw [hnew]; rfl,rfl⟩,rfl⟩

theorem get_keptRows_isNone {e : RoleKey × Row} (he : e ∈ rows) :
    (Dict.get e.1 (ops.keptRows rows sheet)).isNone = decide (e.1 ∉ (ops.rowsOf sheet).filterMap rowKey) := by
  have hget : (Dict.get e.1 rows).isSome = true := Dict.get_isSome (List.mem_map.mpr ⟨e,he,rfl⟩)
  rw [Bool.eq_iff_iff,decide_eq_true_iff,Option.isNone_iff_eq_none]
  constructor
  · intro hnone hmem
    obtain ⟨i,hi⟩ := exists_tracked hmem
    have hkept : e.1 ∈ (ops.keptRows rows sheet).map Prod.fst :=
      List.mem_map.mpr ⟨(e.1,i+2),mem_keptRows.mpr ⟨i,hi,hget,rfl⟩,rfl⟩
    have hsome := Dict.get_isSome hkept
    rw [hnone] at hsome
    cases hsome
  · intro hnot
    apply Dict.get_eq_none
    intro hmem
    obtain ⟨⟨key,rowNum⟩,hkept,rfl⟩ := List.mem_map.mp hmem
    obtain ⟨i,hi,_,_⟩ := mem_keptRows.mp hkept
    obtain ⟨row,hrow,hkey⟩ := row_of_tracked hi
    exact hnot (List.mem_filterMap.mpr ⟨row,List.mem_of_getElem? hrow,hkey⟩)

/-- The update, with the new rows of the sheet that is meant. -/
theorem updateInPlace_eq : ops.updateInPlace rows sheet =
    let appended := ops.appendRows (newRows rows (ops.rowsOf sheet)) (ops.refreshedSheet rows sheet)
      (ops.maxRow (ops.refreshedSheet rows sheet)+1) (ops.keptRows rows sheet)
    appended.2.foldl (fun sheet e => ops.setCell sheet e.2 .status (.text (statusFormula e.2))) appended.1 := by
  have hnew : (rows.filter fun e => (Dict.get e.1 (ops.keptRows rows sheet)).isNone) =
      rows.filter fun e => decide (e.1 ∉ (ops.rowsOf sheet).filterMap rowKey) :=
    List.filter_congr fun e he => get_keptRows_isNone he
  rw [newRows,← hnew]
  rfl

end Worksheet
end Pyhems.Generator

import Pyhems.Generator.RoleRows

/-! The next run of the script. It reads of a property the role that stands in the last row of it, and that is
the role of the row that was moved there. -/
namespace Pyhems.Generator
open Library
variable {rows : List (RoleKey × Row)}

/-- The row that stands in a place once those of properties that are gone are deleted. -/
def moved (rows : List (RoleKey × Row)) (sheet : List Row) (i : Nat) : Row :=
  match (Survivors.survivors (gone rows sheet) sheet)[i]? with
  | some e => e.1
  | none => fun _ => .empty

theorem rowKey_moved {sheet : List Row} {q : Nat} {key : RoleKey} (h : rowKey (moved rows sheet q) = some key) :
    ∃ i row, q ≤ i ∧ sheet[i]? = some row ∧ rowKey row = some key := by
  rw [moved] at h
  split at h
  · next e he =>
    obtain ⟨hrow,_,hrank⟩ := (Survivors.getElem?_survivors _ q e.1 e.2).mp he
    exact ⟨e.2,e.1,hrank ▸ Survivors.rank_le _,hrow,h⟩
  · cases h

/-- A row that stays does not move if those that are gone are all below it. -/
theorem moved_of_stays {sheet : List Row} {i : Nat} {row : Row} (hgone : GoneLast rows sheet)
    (hi : stays rows sheet i = true) (hrow : sheet[i]? = some row) : moved rows sheet i = row := by
  have hsurvivor := (Survivors.getElem?_survivors _ i row i).mpr
    ⟨hrow,gone_eq_false hi,(rank_of_stays hgone hi).symm⟩
  rw [moved,hsurvivor]

theorem tracked_of_last {sheet : List Row} {i : Nat} {row : Row} {key : RoleKey} (hrow : sheet[i]? = some row)
    (hkey : rowKey row = some key) (hlast : ∀ j x, sheet[j]? = some x → rowKey x = some key → j ≤ i) :
    tracked sheet i = some key := by
  obtain ⟨j,hj⟩ := exists_tracked (List.mem_filterMap.mpr ⟨row,List.mem_of_getElem? hrow,hkey⟩)
  obtain ⟨x,hx,hxkey⟩ := row_of_tracked hj
  have hij := le_of_tracked hj hrow hkey
  have hji := hlast j x hx hxkey
  rw [Nat.le_antisymm hij hji]
  exact hj

theorem key_notMem {sheet : List Row} {i : Nat} {row : Row} {key : RoleKey} (hkey : key ∉ sheet.filterMap rowKey)
    (hrow : sheet[i]? = some row) : rowKey row ≠ some key := fun heq =>
  hkey (List.mem_filterMap.mpr ⟨row,List.mem_of_getElem? hrow,heq⟩)

namespace Worksheet
variable {W : Type} {ops : Worksheet W} {sheet : W}

theorem get_loadExistingRows {key : RoleKey} {prior : Column → String} :
    Dict.get key (ops.loadExistingRows sheet) = some prior ↔ ∃ i row, (ops.rowsOf sheet)[i]? = some row ∧
      tracked (ops.rowsOf sheet) i = some key ∧ (fun column => (row column).str) = prior := by
  rw [loadExistingRows_eq,Dict.get_ofPairs,latest_keyed_iff]

theorem cell_deleteGone (h : ops.Lawful) (hmax : 1 ≤ ops.maxRow sheet) (q : Nat) :
    ops.cell (ops.deleteGone rows (ops.keyToRow sheet) sheet) (q+2) = moved rows (ops.rowsOf sheet) q := by
  obtain ⟨hrows,hheader⟩ := @rowsOf_deleteGone W ops sheet rows h
  have hlength := congrArg List.length hrows
  have hq := congrArg (·[q]?) hrows
  rw [length_rowsOf,List.length_map] at hlength
  simp only [List.getElem?_map,getElem?_rowsOf] at hq
  rw [moved]
  split at hq
  · cases hsurvivor : (Survivors.survivors (gone rows (ops.rowsOf sheet)) (ops.rowsOf sheet))[q]? with
    | some e =>
      rw [hsurvivor] at hq
      exact Option.some_inj.mp hq
    | none =>
      rw [hsurvivor] at hq
      cases hq
  · next hlt =>
    have hone := hheader hmax
    rw [List.getElem?_eq_none (by omega)]
    funext column
    exact h.cell_empty _ _ _ (by omega)

theorem cell_refreshedSheet_eq (h : ops.Lawful) (hmax : 1 ≤ ops.maxRow sheet) (q : Nat) :
    ops.cell (ops.refreshedSheet rows sheet) (q+2) =
      (refreshed rows (ops.rowsOf sheet) (moved rows (ops.rowsOf sheet) q) q).1 := by
  by_cases hstays : stays rows (ops.rowsOf sheet) q = true
  · obtain ⟨key,new,hkey,hnew⟩ := stays_iff.mp hstays
    rw [refreshed_of_stays hkey hnew,refreshedSheet,cell_refreshRows h isSome_of_mem_keptRows nodup_keptRows
      (mem_keptRows.mpr ⟨q,hkey,by rw [hnew]; rfl,rfl⟩) hnew,cell_deleteGone h hmax]
  · rw [refreshed_of_not_stays hstays,refreshedSheet,cell_refreshRows_of_notMem h isSome_of_mem_keptRows
      (mt mem_rows_keptRows.mp hstays),cell_deleteGone h hmax]

/-- Where a property of the updated sheet comes from. -/
theorem source_of_row (h : ops.Lawful) (hrows : Indexed rows) (hmax : 1 ≤ ops.maxRow sheet) {q : Nat} {row : Row}
    {key : RoleKey} (hrow : (ops.rowsOf (ops.updateInPlace rows sheet))[q]? = some row)
    (hkey : rowKey row = some key) :
    (∃ i x, q ≤ i ∧ (ops.rowsOf sheet)[i]? = some x ∧ rowKey x = some key) ∨
    ∃ t e, (newRows rows (ops.rowsOf sheet))[t]? = some e ∧ e.1 = key ∧
      q+2 = ops.maxRow (ops.refreshedSheet rows sheet)+1+t := by
  rw [getElem?_rowsOf,maxRow_updateInPlace h hrows] at hrow
  split at hrow
  · next hq =>
    cases hrow
    obtain hle | hgt := Nat.lt_or_ge (ops.maxRow (ops.refreshedSheet rows sheet)) (q+2)
    · right
      have ht : q+2-(ops.maxRow (ops.refreshedSheet rows sheet)+1) < (newRows rows (ops.rowsOf sheet)).length := by
        omega
      have he := List.getElem?_eq_getElem ht
      refine ⟨_,_,he,?_,by omega⟩
      rw [cell_updateInPlace_new h hrows he (by omega),rowKey_stamp,rowKey_overwrite (by decide) (by decide),
        hrows.rowKey_eq _ (mem_newRows.mp (List.getElem_mem ht)).1] at hkey
      exact Option.some_inj.mp hkey
    · left
      rw [cell_updateInPlace_of_le h hrows hgt,cell_refreshedSheet_eq h hmax] at hkey
      by_cases hstays : stays rows (ops.rowsOf sheet) q = true
      · obtain ⟨key',new,hkey',hnew⟩ := stays_iff.mp hstays
        obtain ⟨x,hx,hxkey⟩ := row_of_tracked hkey'
        rw [if_pos hstays,rowKey_stamp,refreshed_of_stays hkey' hnew,rowKey_overwrite (by decide) (by decide),
          hrows.rowKey_eq _ (Dict.mem_of_get hnew)] at hkey
        exact ⟨q,x,le_rfl,hx,hxkey.trans hkey⟩
      · rw [if_neg hstays,refreshed_of_not_stays hstays] at hkey
        exact rowKey_moved hkey
  · cases hrow

/-- What the next run reads of a property that stays. -/
theorem existing_of_stays (h : ops.Lawful) (hrows : Indexed rows) (hmax : 1 ≤ ops.maxRow sheet) {p : Nat}
    {key : RoleKey} {new : Row} (hkey : tracked (ops.rowsOf sheet) p = some key) (hnew : Dict.get key rows = some new) :
    Dict.get key (ops.loadExistingRows (ops.updateInPlace rows sheet)) =
      some fun column => (stamp p (overwrite refreshColumns new (moved rows (ops.rowsOf sheet) p)) column).str := by
  have hstays := stays_iff.mpr ⟨key,new,hkey,hnew⟩
  have hle : p+2 ≤ ops.maxRow (ops.refreshedSheet rows sheet) :=
    le_of_mem_keptRows h (key,p+2) (mem_keptRows.mpr ⟨p,hkey,by rw [hnew]; rfl,rfl⟩)
  have hrow : (ops.rowsOf (ops.updateInPlace rows sheet))[p]? =
      some (stamp p (overwrite refreshColumns new (moved rows (ops.rowsOf sheet) p))) := by
    rw [getElem?_rowsOf,maxRow_updateInPlace h hrows,if_pos (by omega),cell_updateInPlace_of_le h hrows hle,
      if_pos hstays,cell_refreshedSheet_eq h hmax,refreshed_of_stays hkey hnew]
  refine get_loadExistingRows.mpr ⟨p,_,hrow,tracked_of_last hrow ?_ ?_,rfl⟩
  · rw [rowKey_stamp,rowKey_overwrite (by decide) (by decide)]
    exact hrows.rowKey_eq _ (Dict.mem_of_get hnew)
  · intro q x hx hxkey
    obtain ⟨i,y,hqi,hy,hykey⟩ | ⟨t,e,he,hekey,_⟩ := source_of_row h hrows hmax hx hxkey
    · exact hqi.trans (le_of_tracked hkey hy hykey)
    · obtain ⟨y,hy,hykey⟩ := row_of_tracked hkey
      rw [← hekey] at hykey
      exact absurd hykey (key_notMem (mem_newRows.mp (List.mem_of_getElem? he)).2 hy)

/-- What the next run reads of a property that is new. -/
theorem existing_of_new (h : ops.Lawful) (hrows : Indexed rows) (hmax : 1 ≤ ops.maxRow sheet) {e : RoleKey × Row}
    (he : e ∈ rows) (hnew : e.1 ∉ (ops.rowsOf sheet).filterMap rowKey) :
    ∃ p, Dict.get e.1 (ops.loadExistingRows (ops.updateInPlace rows sheet)) =
      some fun column => (stamp p (overwrite (refreshColumns ++ [.role,.comment]) e.2 fun _ => .empty) column).str := by
  obtain ⟨t,ht⟩ := List.getElem?_of_mem (mem_newRows.mpr ⟨he,hnew⟩)
  have hlt := (List.getElem?_eq_some_iff.mp ht).1
  have hone : 1 ≤ ops.maxRow (ops.refreshedSheet rows sheet) :=
    ((rowsOf_deleteGone h).2 hmax).trans (maxRow_refreshRows h isSome_of_mem_keptRows).1
  have hp : ops.maxRow (ops.refreshedSheet rows sheet)-1+t+2 = ops.maxRow (ops.refreshedSheet rows sheet)+1+t := by
    omega
  have hrow := cell_updateInPlace_new h hrows ht hp
  generalize ops.maxRow (ops.refreshedSheet rows sheet)-1+t = p at hp hrow
  have hrow : (ops.rowsOf (ops.updateInPlace rows sheet))[p]? =
      some (stamp p (overwrite (refreshColumns ++ [.role,.comment]) e.2 fun _ => .empty)) := by
    rw [getElem?_rowsOf,maxRow_updateInPlace h hrows,if_pos (by omega),hrow]
  refine ⟨p,get_loadExistingRows.mpr ⟨p,_,hrow,tracked_of_last hrow ?_ ?_,rfl⟩⟩
  · rw [rowKey_stamp,rowKey_overwrite (by decide) (by decide)]
    exact hrows.rowKey_eq _ he
  · intro q x hx hxkey
    obtain ⟨i,y,_,hy,hykey⟩ | ⟨t',e',he',hekey,hq⟩ := source_of_row h hrows hmax hx hxkey
    · exact absurd hykey (key_notMem hnew hy)
    · have hkeys : ((newRows rows (ops.rowsOf sheet)).map Prod.fst).Nodup := nodup_newRows hrows
      have hlt' := (List.getElem?_eq_some_iff.mp he').1
      have htt : t' = t := by
        apply (List.getElem?_inj (by rw [List.length_map]; exact hlt') hkeys).mp
        rw [List.getElem?_map,List.getElem?_map,he',ht,Option.map_some,Option.map_some,hekey]
      omega

end Worksheet
/-! ### The next run -/

theorem get_buildRows {current : Current} (h : (current.map Prod.fst).Nodup)
    (existing : List (RoleKey × (Column → String))) {key : Nat × Nat} {info : PropertyInfo}
    (hmem : (key,info) ∈ current) : Dict.get (roleKey key) (buildRows current existing) =
      some (buildRow key.1 key.2 info (Dict.get (roleKey key) existing)) := by
  rw [Dict.get_eq_some (indexed_buildRows h existing).nodup,buildRows,List.mem_map]
  exact ⟨(key,info),(List.mem_insertionSort _).mpr hmem,rfl⟩

/-- A row that is neither new nor changed. -/
def settled (row : Row) : Row
  | .isNew | .mraChanged => .flag false
  | column => row column

theorem trackedFields_refreshed : ∀ field ∈ trackedFields, field ∈ refreshColumns ∧ field ≠ .status := by decide

theorem mraChanged_eq_false {prior : Column → String} {props : PropertyInfo}
    (h : ∀ field ∈ trackedFields, props.field field = some (prior field)) : mraChanged prior props = false := by
  rw [mraChanged,List.any_eq_false]
  intro field hfield
  rw [h field hfield,decide_eq_true_iff]
  exact fun hne => hne rfl

/-- A row of which the former one holds what the MRA says. -/
theorem buildRow_settled {key : Nat × Nat} {props : PropertyInfo} {prior : Option (Column → String)}
    {prior' : Column → String} (hrole : prior' .role = (buildRow key.1 key.2 props prior .role).str)
    (hcomment : prior' .comment = (buildRow key.1 key.2 props prior .comment).str)
    (hfields : ∀ field ∈ trackedFields, prior' field = (buildRow key.1 key.2 props prior field).str) :
    buildRow key.1 key.2 props (some prior') = settled (buildRow key.1 key.2 props prior) := by
  have hchanged : mraChanged prior' props = false := by
    apply mraChanged_eq_false
    intro field hfield
    rw [hfields field hfield]
    revert hfield
    cases field <;> intro hfield <;> first | rfl | exact absurd hfield (by decide)
  funext column
  cases column with
  | role => exact congrArg Cell.text hrole
  | comment => exact congrArg Cell.text hcomment
  | mraChanged => exact congrArg Cell.flag hchanged
  | _ => rfl

theorem buildRows_settled {current : Current} {existing existing' : List (RoleKey × (Column → String))}
    (h : ∀ key info, (key,info) ∈ current → buildRow key.1 key.2 info (Dict.get (roleKey key) existing') =
      settled (buildRow key.1 key.2 info (Dict.get (roleKey key) existing))) :
    buildRows current existing' = (buildRows current existing).map fun e => (e.1,settled e.2) := by
  rw [buildRows,buildRows,List.map_map]
  apply List.map_congr_left
  rintro ⟨key,info⟩ hsorted
  exact Prod.ext rfl (h key info ((List.mem_insertionSort _).mp hsorted))

namespace Worksheet
variable {W : Type} {ops : Worksheet W} {sheet : W} {current : Current}

/-- A property that stays is given the role and the comment of the row that was moved into its place. -/
theorem roles_moved (h : ops.Lawful) (hcurrent : (current.map Prod.fst).Nodup) (hmax : 1 ≤ ops.maxRow sheet)
    {key : Nat × Nat} (hkey : key ∈ current.map Prod.fst) {p : Nat}
    (hp : tracked (ops.rowsOf sheet) p = some (roleKey key)) :
    let rows := buildRows current (ops.loadExistingRows sheet)
    (Dict.get (roleKey key) (ops.loadExistingRows (ops.updateInPlace rows sheet))).map
        (fun prior => (prior .role,prior .comment)) =
      some ((moved rows (ops.rowsOf sheet) p .role).str,(moved rows (ops.rowsOf sheet) p .comment).str) := by
  intro rows
  obtain ⟨⟨_,info⟩,hmem,rfl⟩ := List.mem_map.mp hkey
  have hnew := get_buildRows hcurrent (ops.loadExistingRows sheet) hmem
  rw [existing_of_stays h (indexed_buildRows hcurrent _) hmax hp hnew]
  rfl

/-- The property that stays is given the role of the one below it. -/
theorem roles_moved_meter :
    let info : PropertyInfo := ⟨"","Measured power","","","required","notApplicable","W","int32"⟩
    let reviewed : Column → String := fun _ => "status"
    let sheet := Grid.ofRows [buildRow 0x0288 0xE0 info none,buildRow 0x0288 0xE7 info none,
      buildRow 0x0288 0xEA info (some reviewed)]
    let rows := buildRows [((0x0288,0xE7),info),((0x0288,0xEA),info)] (Grid.ops.loadExistingRows sheet)
    (Dict.get (0x0288,0xE7) (Grid.ops.loadExistingRows (Grid.ops.updateInPlace rows sheet))).map
      (fun prior => (prior .role,prior .comment)) = some ("status","status") := by
  intro info reviewed sheet rows
  have hp : tracked (Grid.ops.rowsOf sheet) 1 = some (roleKey (0x0288,0xE7)) := by decide +kernel
  refine (roles_moved Grid.lawful (by decide) (by decide) (by decide) hp).trans ?_
  decide +kernel

theorem settled_of_new (h : ops.Lawful) (hcurrent : (current.map Prod.fst).Nodup) (hmax : 1 ≤ ops.maxRow sheet)
    (existing : List (RoleKey × (Column → String))) {key : Nat × Nat} {info : PropertyInfo}
    (hmem : (key,info) ∈ current) (hkey : roleKey key ∉ (ops.rowsOf sheet).filterMap rowKey) :
    let rows := buildRows current existing
    buildRow key.1 key.2 info (Dict.get (roleKey key) (ops.loadExistingRows (ops.updateInPlace rows sheet))) =
      settled (buildRow key.1 key.2 info (Dict.get (roleKey key) existing)) := by
  intro rows
  have hnew := get_buildRows hcurrent existing hmem
  obtain ⟨p,hp⟩ := existing_of_new h (indexed_buildRows hcurrent _) hmax (Dict.mem_of_get hnew) hkey
  rw [hp]
  apply buildRow_settled
  · rfl
  · rfl
  · intro field hfield
    obtain ⟨hrefresh,hstatus⟩ := trackedFields_refreshed field hfield
    rw [stamp,if_neg hstatus,overwrite,if_pos (List.mem_append_left _ hrefresh)]

/-- If no row moved that stays, the next run finds every property as it was left: it keeps its role and its
comment, and none is new or changed. -/
theorem resync (h : ops.Lawful) (hcurrent : (current.map Prod.fst).Nodup) (hmax : 1 ≤ ops.maxRow sheet)
    (hgone : GoneLast (buildRows current (ops.loadExistingRows sheet)) (ops.rowsOf sheet)) :
    let rows := buildRows current (ops.loadExistingRows sheet)
    buildRows current (ops.loadExistingRows (ops.updateInPlace rows sheet)) =
      rows.map fun e => (e.1,settled e.2) := by
  intro rows
  apply buildRows_settled
  intro key info hmem
  by_cases hkey : roleKey key ∈ (ops.rowsOf sheet).filterMap rowKey
  · have hnew := get_buildRows hcurrent (ops.loadExistingRows sheet) hmem
    obtain ⟨p,hp⟩ := exists_tracked hkey
    obtain ⟨row,hrow,_⟩ := row_of_tracked hp
    have hmoved := moved_of_stays hgone (stays_iff.mpr ⟨_,_,hp,hnew⟩) hrow
    have hprior := get_loadExistingRows.mpr ⟨p,row,hrow,hp,rfl⟩
    rw [existing_of_stays h (indexed_buildRows hcurrent _) hmax hp hnew,hmoved,hprior]
    apply buildRow_settled
    · rfl
    · rfl
    · intro field hfield
      obtain ⟨hrefresh,hstatus⟩ := trackedFields_refreshed field hfield
      rw [stamp,if_neg hstatus,overwrite,if_pos hrefresh]
  · exact settled_of_new h hcurrent hmax _ hmem hkey

/-- The row of a property that is gone stands below that of one that stays. -/
theorem resync_meter :
    let info : PropertyInfo := ⟨"","Measured power","","","required","notApplicable","W","int32"⟩
    let current : Current := [((0x0288,0xE7),info)]
    let sheet := Grid.ofRows [buildRow 0x0288 0xE7 info (some fun _ => "status"),buildRow 0x0288 0xE0 info none]
    let rows := buildRows current (Grid.ops.loadExistingRows sheet)
    buildRows current (Grid.ops.loadExistingRows (Grid.ops.updateInPlace rows sheet)) =
      rows.map fun e => (e.1,settled e.2) := by
  intro info current sheet rows
  apply resync Grid.lawful (by decide) (by decide)
  intro i j hi hj
  obtain ⟨key,_,hkey,_⟩ := stays_iff.mp hj
  obtain ⟨_,hrow,_⟩ := row_of_tracked hkey
  have hlt : j < 2 := (List.getElem?_eq_some_iff.mp hrow).1
  have hstays : stays rows (Grid.ops.rowsOf sheet) 1 = false := by decide +kernel
  have hzero : gone rows (Grid.ops.rowsOf sheet) 0 = false := by decide +kernel
  have hj0 : j ≠ 1 := by
    rintro rfl
    cases hstays.symm.trans hj
  have hi0 : i ≠ 0 := by
    rintro rfl
    cases hzero.symm.trans hi
  omega

end Worksheet
end Pyhems.Generator

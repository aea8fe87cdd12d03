import Pyhems.Generator.Build
import Pyhems.Generator.RoleRebuild

/-! The roles that the generator reads in the sheet. A run of the script that moves no row leaves the generator the
roles of all properties that are still there, and so does one that rebuilds a sheet that had each property once. -/
namespace Pyhems.Generator
open Library Fallible

/-- A role that was read, if there is one. -/
def roleRead : Except Codec.Failure (Option (RoleKey × PropertyRole)) → Option (RoleKey × PropertyRole)
  | .ok role => role
  | .error _ => none

/-- What the generator reads in a row. -/
def told (row : Row) : Option (RoleKey × PropertyRole) := roleRead (roleOf row)

/-- The cells of the roles are texts. -/
def TextRoles (sheet : List Row) : Prop := ∀ row ∈ sheet, row .role = .empty ∨ ∃ text, row .role = .text text

section Reading
variable {rows : List Row} {row row' : Row}

theorem told_eq {role : Option (RoleKey × PropertyRole)} (h : roleOf row = .ok role) : told row = role := by
  rw [told,h]
  rfl

theorem load_of_told (h : ∀ row ∈ rows, roleOf row = .ok (told row)) :
    loadPropertyRoles rows = .ok (Dict.ofPairs (rows.filterMap told)) := by
  have hall : rows.mapM roleOf = .ok (rows.map told) := by
    rw [mapM_eq_ok,List.forall₂_map_right_iff,List.forall₂_same]
    exact h
  refine bind_eq_ok.mpr ⟨_,hall,congrArg (fun pairs => Except.ok (Dict.ofPairs pairs)) ?_⟩
  rw [List.filterMap_map]
  rfl

theorem told_of_load {roles : RoleMap} (h : loadPropertyRoles rows = .ok roles) :
    (∀ row ∈ rows, roleOf row = .ok (told row)) ∧ roles = Dict.ofPairs (rows.filterMap told) := by
  obtain ⟨read,hread,_⟩ := bind_eq_ok.mp h
  have hall : ∀ row ∈ rows, roleOf row = .ok (told row) := by
    intro row hrow
    obtain ⟨role,_,hrole⟩ := exists_mem_zip (mapM_eq_ok.mp hread) hrow
    rw [hrole,told_eq hrole]
  refine ⟨hall,?_⟩
  rw [load_of_told hall] at h
  cases h
  rfl

/-- A row is read by its property and its role only. -/
theorem roleOf_congr (hkey : rowKey row = rowKey row') (hrole : row .role = row' .role) : roleOf row = roleOf row' := by
  rw [roleOf,roleOf,hkey,hrole]

theorem roleOf_blank {key : RoleKey} (hkey : rowKey row = some key) (hrole : row .role = .text "") :
    roleOf row = .ok none := by
  rw [roleOf,hkey,hrole]
  rfl

theorem key_of_told {role : RoleKey × PropertyRole} (h : told row = some role) : rowKey row = some role.1 := by
  rw [told] at h
  cases hrole : roleOf row with
  | error failure =>
    rw [hrole] at h
    cases h
  | ok read =>
    rw [hrole] at h
    cases h
    rw [roleOf] at hrole
    cases hkey : rowKey row with
    | none =>
      rw [hkey] at hrole
      cases hrole
    | some key =>
      rw [hkey] at hrole
      split at hrole
      case h_6 =>
        obtain ⟨_,_,hrole⟩ := bind_eq_ok.mp hrole
        cases hrole
        assumption
      all_goals cases hrole

theorem sublist_told (rows : List Row) : ((rows.filterMap told).map Prod.fst).Sublist (rows.filterMap rowKey) := by
  induction rows with
  | nil => exact .slnil
  | cons row rows ih =>
    cases htold : told row with
    | some role =>
      rw [List.filterMap_cons_some htold,List.filterMap_cons_some (key_of_told htold),List.map_cons]
      exact ih.cons_cons _
    | none =>
      rw [List.filterMap_cons_none htold]
      cases hkey : rowKey row with
      | none => rwa [List.filterMap_cons_none hkey]
      | some key =>
        rw [List.filterMap_cons_some hkey]
        exact ih.cons _

theorem eq_of_rowKey (h : (rows.filterMap rowKey).Nodup) (hrow : row ∈ rows) (hrow' : row' ∈ rows) {key : RoleKey}
    (hkey : rowKey row = some key) (hkey' : rowKey row' = some key) : row = row' := by
  have honly : ∀ {row : Row} {rows : List Row}, row ∈ rows → rowKey row = some key → key ∈ rows.filterMap rowKey :=
    fun hmem hkey => List.mem_filterMap.mpr ⟨_,hmem,hkey⟩
  induction rows with
  | nil => cases hrow
  | cons first rows ih =>
    obtain rfl | hrest := List.mem_cons.mp hrow
    · obtain rfl | hrest' := List.mem_cons.mp hrow'
      · rfl
      · rw [List.filterMap_cons_some hkey] at h
        exact absurd (honly hrest' hkey') (List.nodup_cons.mp h).1
    · obtain rfl | hrest' := List.mem_cons.mp hrow'
      · rw [List.filterMap_cons_some hkey'] at h
        exact absurd (honly hrest hkey) (List.nodup_cons.mp h).1
      · refine ih (h.sublist ?_) hrest hrest'
        exact (List.sublist_cons_self first rows).filterMap rowKey

end Reading

/-! ### The updated sheet -/

section Updated
variable {rows : List (RoleKey × Row)} {sheet : List Row} {row : Row} {i : Nat}

theorem roleOf_stamp : roleOf (stamp i row) = roleOf row := roleOf_congr rowKey_stamp rfl

theorem role_refreshed : (refreshed rows sheet row i).1 .role = row .role := by
  have hkept : Column.role ∉ refreshColumns := by decide
  rw [refreshed]
  split
  · dsimp only
    rw [overwrite,if_neg hkept]
  · rfl

theorem roleOf_refreshed (h : Indexed rows) (hrow : sheet[i]? = some row) :
    roleOf (refreshed rows sheet row i).1 = roleOf row :=
  roleOf_congr (rowKey_refreshed h hrow) role_refreshed

/-- What is read of the sheet that is meant. -/
theorem roleOf_reconciled (h : Indexed rows) : (reconciled rows sheet).map roleOf =
    ((Survivors.survivors (gone rows sheet) sheet).map fun e => roleOf e.1) ++
      (newRows rows sheet).map fun e => roleOf e.2 := by
  have hstamp : ∀ l : List (Row × Bool), (l.mapIdx fun i e => if e.2 then stamp i e.1 else e.1).map roleOf =
      l.map fun e => roleOf e.1 := by
    intro l
    rw [List.mapIdx_eq_zipIdx_map,List.map_map]
    conv_rhs => rw [← List.zipIdx_map_fst 0 l,List.map_map]
    apply List.map_congr_left
    rintro ⟨⟨row,isStamped⟩,i⟩ _
    cases isStamped with
    | true => exact roleOf_stamp
    | false => rfl
  rw [reconciled,hstamp,List.map_append,List.map_map,List.map_map]
  -- a new row has its key and its role from the row that it is written from
  congr 1
  apply List.map_congr_left
  rintro ⟨row,i⟩ he
  exact roleOf_refreshed h (List.mk_mem_zipIdx_iff_getElem?.mp (List.mem_of_mem_filter he))

/-- Every row of it is read as before, where it was there before. -/
theorem told_reconciled (h : Indexed rows) (hnew : ∀ e ∈ newRows rows sheet, roleOf e.2 = .ok (told e.2))
    (htold : ∀ row ∈ sheet, roleOf row = .ok (told row)) :
    (∀ row ∈ reconciled rows sheet, roleOf row = .ok (told row)) ∧ (reconciled rows sheet).filterMap told =
      ((Survivors.survivors (gone rows sheet) sheet).filterMap fun e => told e.1) ++
        (newRows rows sheet).filterMap fun e => told e.2 := by
  have hroles := @roleOf_reconciled rows sheet h
  constructor
  · intro row hrow
    have hmem : roleOf row ∈ (reconciled rows sheet).map roleOf := List.mem_map_of_mem hrow
    rw [hroles,List.mem_append,List.mem_map,List.mem_map] at hmem
    obtain ⟨⟨old,i⟩,hold,hsame⟩ | ⟨e,he,hsame⟩ := hmem
    · have hin := List.mem_of_getElem? (List.mk_mem_zipIdx_iff_getElem?.mp (List.mem_of_mem_filter hold))
      rw [← hsame,htold old hin,told_eq (hsame.symm.trans (htold old hin))]
    · rw [← hsame,hnew e he,told_eq (hsame.symm.trans (hnew e he))]
  · have hread := congrArg (List.filterMap roleRead) hroles
    rw [List.filterMap_append,List.filterMap_map,List.filterMap_map,List.filterMap_map] at hread
    exact hread

theorem nodup_told (h : Indexed rows) : (((newRows rows sheet).filterMap fun e => told e.2).map Prod.fst).Nodup := by
  have hsublist := sublist_told ((newRows rows sheet).map Prod.snd)
  have hkeys : ((newRows rows sheet).map Prod.snd).filterMap rowKey = (newRows rows sheet).map Prod.fst := by
    rw [List.filterMap_map,← List.filterMap_eq_map]
    exact List.filterMap_congr fun e he => h.rowKey_eq e (mem_newRows.mp he).1
  rw [hkeys,List.filterMap_map] at hsublist
  exact (nodup_newRows h).sublist hsublist

/-- The roles of a property that is still there are those of rows that are left. -/
theorem latest_survivors {key : RoleKey} {new : Row} (hkey : Dict.get key rows = some new) :
    LastWrite.latest ((Survivors.survivors (gone rows sheet) sheet).filterMap fun e => told e.1) key =
      LastWrite.latest (sheet.filterMap told) key := by
  have hplaces : sheet.filterMap told = sheet.zipIdx.filterMap fun e => told e.1 := by
    conv_lhs => rw [← List.zipIdx_map_fst 0 sheet,List.filterMap_map]
    rfl
  rw [hplaces]
  apply LastWrite.latest_filterMap_filter
  rintro ⟨row,i⟩ he hdeleted role hrole hsame
  have hgone : gone rows sheet i = true := by simpa using hdeleted
  rw [gone,Option.any_eq_true] at hgone
  obtain ⟨lost,htracked,hnone⟩ := hgone
  obtain ⟨row',hrow',hkey'⟩ := row_of_tracked htracked
  cases (List.mk_mem_zipIdx_iff_getElem?.mp he).symm.trans hrow'
  cases (key_of_told hrole).symm.trans hkey'
  rw [hsame,hkey] at hnone
  cases hnone

end Updated

/-! ### A run of the script -/

namespace Worksheet
variable {W : Type} {ops : Worksheet W} {sheet blank : W} {current : Current}

theorem key_of_buildRows {existing : List (RoleKey × (Column → String))} {e : RoleKey × Row}
    (he : e ∈ buildRows current existing) : ∃ key info, (key,info) ∈ current ∧ roleKey key = e.1 ∧
      e.2 = buildRow key.1 key.2 info (Dict.get (roleKey key) existing) := by
  obtain ⟨⟨key,info⟩,hmem,rfl⟩ := List.mem_map.mp he
  exact ⟨key,info,(List.mem_insertionSort _).mp hmem,rfl,rfl⟩

/-- A property that is new has no role. -/
theorem role_of_new : ∀ e ∈ newRows (buildRows current (ops.loadExistingRows sheet)) (ops.rowsOf sheet),
    e.2 .role = .text "" := by
  intro e he
  obtain ⟨hmem,hnew⟩ := mem_newRows.mp he
  obtain ⟨key,info,_,hkey,hrow⟩ := key_of_buildRows hmem
  have hnone : Dict.get (roleKey key) (ops.loadExistingRows sheet) = none := by
    by_contra hsome
    obtain ⟨prior,hprior⟩ := Option.ne_none_iff_exists'.mp hsome
    obtain ⟨i,row,_,htracked,_⟩ := get_loadExistingRows.mp hprior
    obtain ⟨x,hx,hxkey⟩ := row_of_tracked htracked
    rw [hkey] at hxkey
    exact key_notMem hnew hx hxkey
  rw [hrow,hnone]
  rfl

/-- A run that moves no row leaves the generator the roles of the properties that are still there. -/
theorem roles_synced (h : ops.Lawful) (hcurrent : (current.map Prod.fst).Nodup) (hmax : 1 ≤ ops.maxRow sheet)
    (hgone : GoneLast (buildRows current (ops.loadExistingRows sheet)) (ops.rowsOf sheet)) {roles : RoleMap}
    (hload : loadPropertyRoles (ops.rowsOf sheet) = .ok roles) :
    ∃ roles', loadPropertyRoles (ops.rowsOf
        (ops.updateInPlace (buildRows current (ops.loadExistingRows sheet)) sheet)) = .ok roles' ∧
      ∀ key ∈ current.map Prod.fst, Dict.get (roleKey key) roles' = Dict.get (roleKey key) roles := by
  have hindexed := indexed_buildRows hcurrent (ops.loadExistingRows sheet)
  rw [rowsOf_updateInPlace h hindexed hmax hgone]
  generalize hrows : buildRows current (ops.loadExistingRows sheet) = rows at hgone hindexed ⊢
  obtain ⟨htold,rfl⟩ := told_of_load hload
  have hblank : ∀ e ∈ newRows rows (ops.rowsOf sheet), roleOf e.2 = .ok none := by
    intro e he
    exact roleOf_blank (hindexed.rowKey_eq e (mem_newRows.mp he).1) (role_of_new e (hrows ▸ he))
  obtain ⟨hread,htolds⟩ := told_reconciled hindexed (fun e he => (told_eq (hblank e he)).symm ▸ hblank e he) htold
  have hnone : (newRows rows (ops.rowsOf sheet)).filterMap (fun e => told e.2) = [] :=
    List.filterMap_eq_nil_iff.mpr fun e he => told_eq (hblank e he)
  rw [hnone,List.append_nil] at htolds
  refine ⟨_,load_of_told hread,?_⟩
  intro key hkey
  obtain ⟨⟨_,info⟩,hmem,rfl⟩ := List.mem_map.mp hkey
  have hpresent := get_buildRows hcurrent (ops.loadExistingRows sheet) hmem
  rw [hrows] at hpresent
  rw [Dict.get_ofPairs,Dict.get_ofPairs,htolds,latest_survivors hpresent]

/-! ### A sheet that is rebuilt -/

/-- A row that is built is read as the former row of its property. -/
theorem roleOf_built (htext : TextRoles (ops.rowsOf sheet)) {e : RoleKey × Row}
    (he : e ∈ buildRows current (ops.loadExistingRows sheet)) (hkey : rowKey e.2 = some e.1) :
    roleOf e.2 = .ok none ∧ e.1 ∉ (ops.rowsOf sheet).filterMap rowKey ∨
      ∃ row ∈ ops.rowsOf sheet, rowKey row = some e.1 ∧ roleOf e.2 = roleOf row := by
  obtain ⟨key,info,_,hsame,hbuilt⟩ := key_of_buildRows he
  cases hprior : Dict.get (roleKey key) (ops.loadExistingRows sheet) with
  | none =>
    left
    rw [hprior] at hbuilt
    refine ⟨roleOf_blank hkey (by rw [hbuilt]; rfl),?_⟩
    intro hmem
    obtain ⟨i,hi⟩ := exists_tracked hmem
    obtain ⟨row,hrow,_⟩ := row_of_tracked hi
    rw [← hsame] at hi
    have hsome := get_loadExistingRows.mpr ⟨i,row,hrow,hi,rfl⟩
    cases hprior.symm.trans hsome
  | some prior =>
    right
    obtain ⟨i,row,hrow,htracked,rfl⟩ := get_loadExistingRows.mp hprior
    obtain ⟨row',hrow',hrowkey⟩ := row_of_tracked htracked
    cases hrow.symm.trans hrow'
    rw [hsame] at hrowkey
    have hmem := List.mem_of_getElem? hrow
    refine ⟨row,hmem,hrowkey,?_⟩
    have hrole : e.2 .role = .text (row .role).str := by rw [hbuilt,hprior]; rfl
    obtain hempty | ⟨text,htext⟩ := htext row hmem
    · rw [hempty] at hrole
      rw [roleOf_blank hkey hrole,roleOf,hrowkey,hempty]
    · rw [htext] at hrole
      exact roleOf_congr (hkey.trans hrowkey.symm) (hrole.trans htext.symm)

/-- The rows of a sheet that is rebuilt, in their order. -/
theorem rowsOf_rebuilt (h : ops.Lawful) {rows : List (RoleKey × Row)} (hrows : Indexed rows)
    (hblank : ops.maxRow blank = 1) : ops.rowsOf (ops.rebuild rows blank) = reconciled rows [] := by
  have hnil : ops.rowsOf blank = [] := List.eq_nil_of_length_eq_zero (by rw [length_rowsOf,hblank])
  have hlast : GoneLast rows (ops.rowsOf blank) := by
    rw [hnil]
    intro i j hi
    cases hi
  rw [rowsOf_rebuild h hrows hblank,rowsOf_updateInPlace h hrows (by omega) hlast,hnil]

/-- A sheet that is rebuilt leaves the generator the roles of the properties that are still there, if it had each
property once. -/
theorem roles_rebuilt (h : ops.Lawful) (hcurrent : (current.map Prod.fst).Nodup) (hblank : ops.maxRow blank = 1)
    (htext : TextRoles (ops.rowsOf sheet)) (honce : ((ops.rowsOf sheet).filterMap rowKey).Nodup) {roles : RoleMap}
    (hload : loadPropertyRoles (ops.rowsOf sheet) = .ok roles) :
    ∃ roles', loadPropertyRoles (ops.rowsOf
        (ops.rebuild (buildRows current (ops.loadExistingRows sheet)) blank)) = .ok roles' ∧
      ∀ key ∈ current.map Prod.fst, Dict.get (roleKey key) roles' = Dict.get (roleKey key) roles := by
  have hindexed := indexed_buildRows hcurrent (ops.loadExistingRows sheet)
  obtain ⟨htold,rfl⟩ := told_of_load hload
  rw [rowsOf_rebuilt h hindexed hblank]
  have hbuilt := fun (e : RoleKey × Row) (he : e ∈ buildRows current (ops.loadExistingRows sheet)) =>
    roleOf_built htext he (hindexed.rowKey_eq e he)
  have hnew : ∀ e ∈ newRows (buildRows current (ops.loadExistingRows sheet)) [], roleOf e.2 = .ok (told e.2) := by
    intro e he
    obtain ⟨hnone,_⟩ | ⟨row,hrow,_,hsame⟩ := hbuilt e (mem_newRows.mp he).1
    · rw [hnone,told_eq hnone]
    · rw [hsame,htold row hrow,told_eq (hsame.trans (htold row hrow))]
  obtain ⟨hread,htolds⟩ := told_reconciled hindexed hnew (List.forall_mem_nil _)
  refine ⟨_,load_of_told hread,?_⟩
  intro key hkey
  obtain ⟨⟨_,info⟩,hmem,rfl⟩ := List.mem_map.mp hkey
  have hpresent := Dict.mem_of_get (get_buildRows hcurrent (ops.loadExistingRows sheet) hmem)
  have hnodup := @nodup_told (buildRows current (ops.loadExistingRows sheet)) [] hindexed
  rw [htolds,Survivors.survivors,List.zipIdx_nil,List.filter_nil,List.filterMap_nil,List.nil_append,
    Dict.ofPairs_eq_self hnodup,Dict.ofPairs_eq_self (honce.sublist (sublist_told _))]
  refine Option.ext fun role => ?_
  rw [Dict.get_eq_some hnodup,Dict.get_eq_some (honce.sublist (sublist_told _)),List.mem_filterMap,List.mem_filterMap]
  constructor
  · rintro ⟨e,he,hrole⟩
    obtain ⟨hnone,_⟩ | ⟨row,hrow,_,hsame⟩ := hbuilt e (mem_newRows.mp he).1
    · cases (told_eq hnone).symm.trans hrole
    · refine ⟨row,hrow,?_⟩
      rw [told,← hsame]
      exact hrole
  · rintro ⟨row,hrow,hrole⟩
    refine ⟨_,mem_newRows.mpr ⟨hpresent,List.not_mem_nil⟩,?_⟩
    obtain ⟨_,hnot⟩ | ⟨other,hother,hkey,hsame⟩ := hbuilt _ hpresent
    · exact absurd (List.mem_filterMap.mpr ⟨row,hrow,key_of_told hrole⟩) hnot
    · cases eq_of_rowKey honce hrow hother (key_of_told hrole) hkey
      rw [told,hsame]
      exact hrole

end Worksheet
end Pyhems.Generator

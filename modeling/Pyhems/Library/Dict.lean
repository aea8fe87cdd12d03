import Pyhems.Library.LastWrite

/-! Dictionaries in insertion order. A key stays where it was inserted first and keeps the value
that was inserted last. -/
namespace Pyhems.Library.Dict
variable {κ α : Type} [DecidableEq κ]

/-- `d[key] = value`. -/
def insert (key : κ) (value : α) : List (κ × α) → List (κ × α)
  | [] => [(key,value)]
  | e :: d => if e.1 = key then (key,value) :: d else e :: insert key value d

/-- `{key: value for key, value in pairs}`. -/
def ofPairs (pairs : List (κ × α)) : List (κ × α) :=
  pairs.foldl (fun d pair => insert pair.1 pair.2 d) []

/-- `d.get(key)`. -/
def get (key : κ) : List (κ × α) → Option α
  | [] => none
  | e :: d => if e.1 = key then some e.2 else get key d

variable {d pairs : List (κ × α)} {key k : κ} {value : α}

theorem get_insert (key : κ) (value : α) (d : List (κ × α)) (k : κ) :
    get k (insert key value d) = if key = k then some value else get k d := by
  induction d with
  | nil => rfl
  | cons e d ih =>
    by_cases he : e.1 = key
    · subst he
      by_cases hk : e.1 = k <;> simp [insert,get,hk]
    · by_cases hk : e.1 = k
      · subst hk
        simp [insert,get,he,Ne.symm he]
      · simp [insert,get,he,hk,ih]

theorem mem_keys_insert : k ∈ (insert key value d).map Prod.fst ↔ k = key ∨ k ∈ d.map Prod.fst := by
  induction d with
  | nil => simp [insert]
  | cons e d ih =>
    unfold insert
    split
    · next he => simp [he]
    · rw [List.map_cons,List.mem_cons,ih,List.map_cons,List.mem_cons]
      exact or_left_comm

theorem nodup_keys_insert (h : (d.map Prod.fst).Nodup) : ((insert key value d).map Prod.fst).Nodup := by
  induction d with
  | nil => simp [insert]
  | cons e d ih =>
    obtain ⟨hnew,hrest⟩ := List.nodup_cons.mp h
    unfold insert
    split
    · next he =>
      subst he
      exact h
    · next he =>
      rw [List.map_cons,List.nodup_cons,mem_keys_insert,not_or]
      exact ⟨⟨he,hnew⟩,ih hrest⟩

theorem insert_of_notMem (h : key ∉ d.map Prod.fst) : insert key value d = d ++ [(key,value)] := by
  induction d with
  | nil => rfl
  | cons e d ih =>
    rw [List.map_cons,List.mem_cons,not_or] at h
    rw [insert,if_neg (Ne.symm h.1),ih h.2]
    rfl

theorem ofPairs_concat (pairs : List (κ × α)) (pair : κ × α) :
    ofPairs (pairs ++ [pair]) = insert pair.1 pair.2 (ofPairs pairs) := by
  simp [ofPairs]

/-- The dictionary holds the last value that was written for a key. -/
theorem get_ofPairs (pairs : List (κ × α)) (k : κ) : get k (ofPairs pairs) = LastWrite.latest pairs k := by
  induction pairs using List.reverseRecOn with
  | nil => rfl
  | append_singleton pairs pair ih =>
    rw [ofPairs_concat,get_insert,LastWrite.latest_append,LastWrite.latest_singleton,ih]
    split <;> rfl

theorem mem_keys_ofPairs : k ∈ (ofPairs pairs).map Prod.fst ↔ k ∈ pairs.map Prod.fst := by
  induction pairs using List.reverseRecOn with
  | nil => rfl
  | append_singleton pairs pair ih =>
    rw [ofPairs_concat,mem_keys_insert,ih,List.map_append,List.mem_append,List.map_singleton,
      List.mem_singleton,or_comm]

theorem nodup_keys_ofPairs (pairs : List (κ × α)) : ((ofPairs pairs).map Prod.fst).Nodup := by
  induction pairs using List.reverseRecOn with
  | nil => exact List.nodup_nil
  | append_singleton pairs pair ih =>
    rw [ofPairs_concat]
    exact nodup_keys_insert ih

theorem ofPairs_eq_self (h : (pairs.map Prod.fst).Nodup) : ofPairs pairs = pairs := by
  induction pairs using List.reverseRecOn with
  | nil => rfl
  | append_singleton pairs pair ih =>
    rw [List.map_append] at h
    obtain ⟨hold,_,hdisjoint⟩ := List.nodup_append.mp h
    have hnew : pair.1 ∉ pairs.map Prod.fst := fun hmem => hdisjoint _ hmem _ (by simp) rfl
    rw [ofPairs_concat,ih hold,insert_of_notMem hnew]

theorem insert_map {β : Type} (f : κ → α → β) (key : κ) (value : α) (d : List (κ × α)) :
    insert key (f key value) (d.map fun e => (e.1,f e.1 e.2)) = (insert key value d).map fun e => (e.1,f e.1 e.2) := by
  induction d with
  | nil => rfl
  | cons e d ih =>
    rw [List.map_cons,insert,insert]
    split
    · rfl
    · rw [ih,List.map_cons]

theorem ofPairs_map {β : Type} (f : κ → α → β) (pairs : List (κ × α)) :
    ofPairs (pairs.map fun e => (e.1,f e.1 e.2)) = (ofPairs pairs).map fun e => (e.1,f e.1 e.2) := by
  induction pairs using List.reverseRecOn with
  | nil => rfl
  | append_singleton pairs pair ih => rw [List.map_append,List.map_singleton,ofPairs_concat,ih,insert_map,ofPairs_concat]

/-- `{key: value, **d}`: an entry of `d` goes before the new one. -/
theorem get_ofPairs_cons (key : κ) (value : α) (h : (d.map Prod.fst).Nodup) (k : κ) :
    get k (ofPairs ((key,value) :: d)) = (get k d).or (if key = k then some value else none) := by
  have hsplit : (key,value) :: d = [(key,value)] ++ d := rfl
  rw [get_ofPairs,hsplit,LastWrite.latest_append,LastWrite.latest_singleton,← get_ofPairs d,ofPairs_eq_self h]

theorem get_eq_none (h : key ∉ d.map Prod.fst) : get key d = none := by
  induction d with
  | nil => rfl
  | cons e d ih =>
    rw [List.map_cons,List.mem_cons,not_or] at h
    rw [get,if_neg (Ne.symm h.1),ih h.2]

theorem get_eq_some (h : (d.map Prod.fst).Nodup) : get key d = some value ↔ (key,value) ∈ d := by
  induction d with
  | nil => exact ⟨nofun,nofun⟩
  | cons e d ih =>
    obtain ⟨hnew,hrest⟩ := List.nodup_cons.mp h
    rw [get,List.mem_cons]
    split
    · next he =>
      subst he
      have hnone : (e.1,value) ∉ d := fun hmem => hnew (List.mem_map.mpr ⟨_,hmem,rfl⟩)
      simp [hnone,Prod.ext_iff,eq_comm]
    · next he =>
      rw [ih hrest]
      simp [Prod.ext_iff,Ne.symm he]

/-- The order of different keys does not matter. -/
theorem get_ofPairs_perm {d' : List (κ × α)} (h : (d.map Prod.fst).Nodup) (hperm : d'.Perm d) (k : κ) :
    get k (ofPairs d') = get k (ofPairs d) := by
  have h' : (d'.map Prod.fst).Nodup := (hperm.map _).nodup_iff.mpr h
  rw [ofPairs_eq_self h,ofPairs_eq_self h']
  exact Option.ext fun value => by rw [get_eq_some h,get_eq_some h',hperm.mem_iff]

theorem mem_of_get (h : get key d = some value) : (key,value) ∈ d := by
  induction d with
  | nil => cases h
  | cons e d ih =>
    rw [get] at h
    split at h
    · next he =>
      subst he
      cases h
      exact List.mem_cons_self
    · exact List.mem_cons_of_mem _ (ih h)

theorem get_isSome (h : key ∈ d.map Prod.fst) : (get key d).isSome = true := by
  induction d with
  | nil => cases h
  | cons e d ih =>
    rw [get]
    split
    · rfl
    · next he => exact ih ((List.mem_cons.mp h).resolve_left (Ne.symm he))

theorem get_filter (keep : κ → Bool) (d : List (κ × α)) (k : κ) :
    get k (d.filter fun e => keep e.1) = if keep k then get k d else none := by
  induction d with
  | nil => exact (ite_self _).symm
  | cons e d ih =>
    rw [List.filter_cons]
    by_cases hk : e.1 = k
    · subst hk
      by_cases he : keep e.1
      · simp [get,he]
      · simp [he,ih]
    · by_cases he : keep e.1 <;> simp [get,he,hk,ih]

end Pyhems.Library.Dict

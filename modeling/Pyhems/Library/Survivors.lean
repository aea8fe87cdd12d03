import Mathlib.Data.List.Induction

/-! Entries that are left when others are removed. An entry moves up by the number of entries that are
removed above it, so it stays where it was exactly if there is none. -/
namespace Pyhems.Library.Survivors
variable {α : Type} {removed : Nat → Bool}

/-- The entries that are left, with their former indices. -/
def survivors (removed : Nat → Bool) (l : List α) : List (α × Nat) := l.zipIdx.filter fun e => !removed e.2

/-- The number of entries above an index that are left. -/
def rank (removed : Nat → Bool) : Nat → Nat
  | 0 => 0
  | i+1 => if removed i then rank removed i else rank removed i+1

theorem rank_le (i : Nat) : rank removed i ≤ i := by
  induction i with
  | zero => exact Nat.le_refl 0
  | succ i ih =>
    rw [rank]
    split <;> omega

theorem rank_eq_self_iff (i : Nat) : rank removed i = i ↔ ∀ j < i, removed j = false := by
  induction i with
  | zero => exact ⟨fun _ _ hj => absurd hj (Nat.not_lt_zero _),fun _ => rfl⟩
  | succ i ih =>
    have hle : rank removed i ≤ i := rank_le i
    rw [rank]
    cases hi : removed i with
    | true =>
      constructor
      · intro h
        rw [if_pos rfl] at h
        omega
      · intro h
        cases (h i (Nat.lt_succ_self i)).symm.trans hi
    | false =>
      rw [if_neg Bool.false_ne_true,Nat.succ_inj,ih]
      constructor
      · intro h j hj
        obtain hj | rfl := Nat.lt_succ_iff_lt_or_eq.mp hj
        · exact h j hj
        · exact hi
      · exact fun h j hj => h j (Nat.lt_succ_of_lt hj)

theorem survivors_concat (l : List α) (x : α) : survivors removed (l ++ [x]) =
    survivors removed l ++ if removed l.length then [] else [(x,l.length)] := by
  rw [survivors,List.zipIdx_append,List.filter_append,survivors]
  cases h : removed l.length <;> simp [h]

theorem length_survivors (l : List α) : (survivors removed l).length = rank removed l.length := by
  induction l using List.reverseRecOn with
  | nil => rfl
  | append_singleton l x ih =>
    rw [survivors_concat,List.length_append,ih,List.length_append,List.length_singleton,rank]
    cases removed l.length <;> rfl

theorem getElem?_concat_iff {l : List α} {a b : α} {j : Nat} :
    (l ++ [b])[j]? = some a ↔ l[j]? = some a ∨ j = l.length ∧ b = a := by
  rw [List.getElem?_append]
  split
  · next hj => exact ⟨.inl,fun h => h.resolve_right fun h => Nat.ne_of_lt hj h.1⟩
  · next hj =>
    rw [List.getElem?_eq_none (Nat.not_lt.mp hj)]
    constructor
    · intro h
      obtain ⟨hzero,rfl⟩ := List.getElem?_eq_some_iff.mp h
      rw [List.length_singleton] at hzero
      exact .inr ⟨by omega,by simp⟩
    · rintro (h | ⟨rfl,rfl⟩)
      · cases h
      · rw [Nat.sub_self]
        rfl

/-- An entry that is left is found at its rank. -/
theorem getElem?_survivors (l : List α) (q : Nat) (x : α) (i : Nat) : (survivors removed l)[q]? = some (x,i) ↔
    l[i]? = some x ∧ removed i = false ∧ q = rank removed i := by
  induction l using List.reverseRecOn with
  | nil => simp [survivors]
  | append_singleton l y ih =>
    rw [survivors_concat,getElem?_concat_iff]
    cases hlast : removed l.length with
    | true =>
      rw [if_pos rfl,List.append_nil,ih]
      constructor
      · rintro ⟨hx,hrest⟩
        exact ⟨.inl hx,hrest⟩
      · rintro ⟨hx | ⟨rfl,_⟩,hremoved,hq⟩
        · exact ⟨hx,hremoved,hq⟩
        · cases hlast.symm.trans hremoved
    | false =>
      rw [if_neg Bool.false_ne_true,getElem?_concat_iff,ih,length_survivors,Prod.mk.injEq]
      constructor
      · rintro (⟨hx,hrest⟩ | ⟨hq,rfl,rfl⟩)
        · exact ⟨.inl hx,hrest⟩
        · exact ⟨.inr ⟨rfl,rfl⟩,hlast,hq⟩
      · rintro ⟨hx | ⟨rfl,rfl⟩,hremoved,hq⟩
        · exact .inl ⟨hx,hremoved,hq⟩
        · exact .inr ⟨hq,rfl,rfl⟩

theorem survivors_append (l l' : List α) : survivors removed (l ++ l') =
    survivors removed l ++ (l'.zipIdx l.length).filter fun e => !removed e.2 := by
  rw [survivors,List.zipIdx_append,List.filter_append,survivors,Nat.zero_add]

theorem survivors_congr {removed' : Nat → Bool} {l : List α} (h : ∀ i < l.length, removed i = removed' i) :
    survivors removed l = survivors removed' l := by
  apply List.filter_congr
  intro e he
  rw [h e.2 (by simpa using List.snd_lt_of_mem_zipIdx he)]

theorem survivors_eq_zipIdx (removed : Nat → Bool) {l : List α} {n : Nat} (h : ∀ i, n ≤ i → removed i = false) :
    ((l.zipIdx n).filter fun e => !removed e.2).map Prod.fst = l := by
  have hkept : (l.zipIdx n).filter (fun e => !removed e.2) = l.zipIdx n := by
    apply List.filter_eq_self.mpr
    intro e he
    rw [h e.2 (List.le_snd_of_mem_zipIdx he)]
    rfl
  rw [hkept,List.zipIdx_map_fst]

/-- Entries that are erased one by one, the last one first, leave the others. -/
theorem foldl_eraseIdx {indices : List Nat} {l : List α} (hdescending : indices.Pairwise (· > ·))
    (hlt : ∀ i ∈ indices, i < l.length) :
    indices.foldl List.eraseIdx l = (survivors (fun j => decide (j ∈ indices)) l).map Prod.fst := by
  induction indices generalizing l with
  | nil =>
    exact (survivors_eq_zipIdx (fun j => decide (j ∈ [])) fun _ _ => decide_eq_false List.not_mem_nil).symm
  | cons i indices ih =>
    obtain ⟨hbelow,hrest⟩ := List.pairwise_cons.mp hdescending
    have hi := hlt i List.mem_cons_self
    have hlength : (l.take i).length = i := List.length_take_of_le (Nat.le_of_lt hi)
    have habove : ∀ j, i ≤ j → decide (j ∈ indices) = false := fun j hj =>
      decide_eq_false fun hmem => Nat.not_lt.mpr hj (hbelow j hmem)
    rw [List.foldl_cons,ih hrest]
    · have hsplit : l = l.take i ++ l.get ⟨i,hi⟩ :: l.drop (i+1) := by
        rw [List.get_eq_getElem,← List.drop_eq_getElem_cons,List.take_append_drop]
      conv_rhs => rw [hsplit]
      rw [List.eraseIdx_eq_take_drop_succ,survivors_append,survivors_append,hlength,List.map_append,List.map_append,
        survivors_eq_zipIdx _ habove,List.zipIdx_cons,List.filter_cons_of_neg (by simp)]
      congr 1
      · apply congrArg
        apply survivors_congr
        intro j hj
        rw [hlength] at hj
        simp [Nat.ne_of_lt hj]
      · refine (survivors_eq_zipIdx (fun j => decide (j ∈ i :: indices)) fun j hj => ?_).symm
        have hne : j ≠ i := by omega
        rw [decide_eq_false_iff_not,List.mem_cons,not_or]
        exact ⟨hne,of_decide_eq_false (habove j (Nat.le_of_succ_le hj))⟩
    · intro j hj
      have hji := hbelow j hj
      rw [List.length_eraseIdx_of_lt hi]
      omega

end Pyhems.Library.Survivors

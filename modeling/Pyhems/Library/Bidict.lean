import Mathlib.Data.List.Basic

/-! A finite one-to-one map, readable in both directions. A forced insertion removes the
pairs that share its key or its value, so the map stays one-to-one. -/
namespace Pyhems.Library
variable {α β : Type}

structure Bidict (α β : Type) where
  pairs : List (α × β)
  injective : ∀ p ∈ pairs, ∀ p' ∈ pairs, p.1 = p'.1 ↔ p.2 = p'.2

namespace Bidict

def empty : Bidict α β := ⟨[],nofun⟩

def get [DecidableEq α] (m : Bidict α β) (a : α) : Option β :=
  (m.pairs.find? fun p => p.1 = a).map Prod.snd

def inverse [DecidableEq β] (m : Bidict α β) (b : β) : Option α :=
  (m.pairs.find? fun p => p.2 = b).map Prod.fst

/-- Relate a key and a value whatever they were related to. -/
def forceput [DecidableEq α] [DecidableEq β] (m : Bidict α β) (a : α) (b : β) : Bidict α β where
  pairs := (a,b) :: m.pairs.filter fun p => p.1 ≠ a ∧ p.2 ≠ b
  injective := by
    intro p hp p' hp'
    rcases List.mem_cons.mp hp with rfl | hp <;> rcases List.mem_cons.mp hp' with rfl | hp'
    · exact ⟨fun _ => rfl,fun _ => rfl⟩
    · have hother := of_decide_eq_true (List.mem_filter.mp hp').2
      exact ⟨fun h => absurd h.symm hother.1,fun h => absurd h.symm hother.2⟩
    · have hother := of_decide_eq_true (List.mem_filter.mp hp).2
      exact ⟨fun h => absurd h hother.1,fun h => absurd h hother.2⟩
    · exact m.injective p (List.mem_filter.mp hp).1 p' (List.mem_filter.mp hp').1

variable {m : Bidict α β} {a : α} {b : β}

theorem get_eq_some_iff [DecidableEq α] : m.get a = some b ↔ (a,b) ∈ m.pairs := by
  unfold get
  rw [Option.map_eq_some_iff]
  constructor
  · rintro ⟨p,hp,rfl⟩
    have ha : p.1 = a := by simpa using List.find?_some hp
    rw [← ha]
    exact List.mem_of_find?_eq_some hp
  · intro hmem
    have hfound : (m.pairs.find? fun p => p.1 = a).isSome := by
      rw [List.find?_isSome]
      exact ⟨(a,b),hmem,by simp⟩
    obtain ⟨p,hp⟩ := Option.isSome_iff_exists.mp hfound
    have ha : p.1 = a := by simpa using List.find?_some hp
    exact ⟨p,hp,(m.injective p (List.mem_of_find?_eq_some hp) (a,b) hmem).mp ha⟩

theorem inverse_eq_some_iff [DecidableEq β] : m.inverse b = some a ↔ (a,b) ∈ m.pairs := by
  unfold inverse
  rw [Option.map_eq_some_iff]
  constructor
  · rintro ⟨p,hp,rfl⟩
    have hb : p.2 = b := by simpa using List.find?_some hp
    rw [← hb]
    exact List.mem_of_find?_eq_some hp
  · intro hmem
    have hfound : (m.pairs.find? fun p => p.2 = b).isSome := by
      rw [List.find?_isSome]
      exact ⟨(a,b),hmem,by simp⟩
    obtain ⟨p,hp⟩ := Option.isSome_iff_exists.mp hfound
    have hb : p.2 = b := by simpa using List.find?_some hp
    exact ⟨p,hp,(m.injective p (List.mem_of_find?_eq_some hp) (a,b) hmem).mpr hb⟩

/-- The two directions agree. -/
theorem inverse_iff_get [DecidableEq α] [DecidableEq β] : m.inverse b = some a ↔ m.get a = some b :=
  inverse_eq_some_iff.trans get_eq_some_iff.symm

theorem get_forceput [DecidableEq α] [DecidableEq β] (m : Bidict α β) (a : α) (b : β) :
    (m.forceput a b).get a = some b :=
  get_eq_some_iff.mpr List.mem_cons_self

/-- A pair survives a forced insertion that agrees with it or shares nothing with it. -/
theorem get_forceput_of_iff [DecidableEq α] [DecidableEq β] {a' : α} {b' : β}
    (h : m.get a = some b) (hsame : a = a' ↔ b = b') :
    (m.forceput a' b').get a = some b := by
  rw [get_eq_some_iff] at h ⊢
  by_cases ha : a = a'
  · rw [← ha,← hsame.mp ha]
    exact List.mem_cons_self
  · refine List.mem_cons_of_mem _ (List.mem_filter.mpr ⟨h,?_⟩)
    exact decide_eq_true ⟨ha,fun hb => ha (hsame.mpr hb)⟩

end Bidict

end Pyhems.Library

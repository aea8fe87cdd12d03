import Mathlib.Data.List.Basic

/-! Numbered items that are delivered at once or held back and delivered later. The delivered
numbers followed by the held ones form one increasing list below the next number, and
every operation but an overtaking delivery keeps it so. -/
namespace Pyhems.Library.HoldBack

structure InOrder (delivered held : List Nat) (next : Nat) : Prop where
  increasing : (delivered ++ held).Pairwise (· < ·)
  below : ∀ n ∈ delivered ++ held, n < next

variable {delivered held held' : List Nat} {next next' : Nat}

theorem inOrder_nil : InOrder [] [] 0 := ⟨.nil,nofun⟩

theorem InOrder.ordered (h : InOrder delivered held next) : delivered.Pairwise (· < ·) :=
  (List.pairwise_append.mp h.increasing).1

theorem InOrder.mono (h : InOrder delivered held next) (hnext : next ≤ next') :
    InOrder delivered held next' :=
  ⟨h.increasing,fun n hn => Nat.lt_of_lt_of_le (h.below n hn) hnext⟩

/-- Held items may be lost. -/
theorem InOrder.lose (h : InOrder delivered held next) (hlost : held'.Sublist held) :
    InOrder delivered held' next := by
  have hsub := hlost.append_left delivered
  exact ⟨h.increasing.sublist hsub,fun n hn => h.below n (hsub.subset hn)⟩

/-- The next item joins the end of the list. -/
theorem InOrder.append (h : InOrder delivered held next) :
    (delivered ++ held ++ [next]).Pairwise (· < ·) ∧ ∀ n ∈ delivered ++ held ++ [next], n < next+1 := by
  refine ⟨List.pairwise_append.mpr ⟨h.increasing,List.pairwise_singleton _ _,?_⟩,fun n hn => ?_⟩
  · intro n hn k hk
    rw [List.mem_singleton.mp hk]
    exact h.below n hn
  · rcases List.mem_append.mp hn with hn | hn
    · exact Nat.lt_succ_of_lt (h.below n hn)
    · rw [List.mem_singleton.mp hn]
      exact Nat.lt_succ_self _

/-- The next item is held back. -/
theorem InOrder.hold (h : InOrder delivered held next) :
    InOrder delivered (held ++ [next]) (next+1) := by
  obtain ⟨hincreasing,hbelow⟩ := h.append
  rw [List.append_assoc] at hincreasing hbelow
  exact ⟨hincreasing,hbelow⟩

/-- The next item is delivered, with none held back that it could overtake. -/
theorem InOrder.pass (h : InOrder delivered [] next) : InOrder (delivered ++ [next]) [] (next+1) := by
  obtain ⟨hincreasing,hbelow⟩ := h.append
  rw [List.append_nil] at hincreasing hbelow
  exact ⟨by rwa [List.append_nil],by rwa [List.append_nil]⟩

/-- The held items are delivered. -/
theorem InOrder.flush (h : InOrder delivered held next) : InOrder (delivered ++ held) [] next :=
  ⟨by rw [List.append_nil]; exact h.increasing,by rw [List.append_nil]; exact h.below⟩

end Pyhems.Library.HoldBack

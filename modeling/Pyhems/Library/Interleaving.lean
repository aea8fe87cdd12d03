import Mathlib.Data.List.Perm.Basic
import Mathlib.Data.List.Sublists

/-! A list split in two by taking or leaving each of its elements in turn. Both parts keep the order,
and every occurrence is in exactly one of them. -/
namespace Pyhems.Library
variable {α : Type}

/-- The third list is the other two, interleaved. -/
inductive Interleaves : List α → List α → List α → Prop where
  | nil : Interleaves [] [] []
  | take {a : α} {taken left all : List α} (h : Interleaves taken left all) :
      Interleaves (a :: taken) left (a :: all)
  | leave {a : α} {taken left all : List α} (h : Interleaves taken left all) :
      Interleaves taken (a :: left) (a :: all)

namespace Interleaves
variable {taken left all : List α}

theorem take_last (h : Interleaves taken left all) (a : α) : Interleaves (taken ++ [a]) left (all ++ [a]) := by
  induction h with
  | nil => exact .take .nil
  | take _ ih => exact .take ih
  | leave _ ih => exact .leave ih

theorem leave_last (h : Interleaves taken left all) (a : α) : Interleaves taken (left ++ [a]) (all ++ [a]) := by
  induction h with
  | nil => exact .leave .nil
  | take _ ih => exact .take ih
  | leave _ ih => exact .leave ih

theorem perm (h : Interleaves taken left all) : (taken ++ left).Perm all := by
  induction h with
  | nil => exact .refl _
  | take _ ih => exact ih.cons _
  | leave _ ih => exact List.perm_middle.trans (ih.cons _)

end Interleaves

end Pyhems.Library

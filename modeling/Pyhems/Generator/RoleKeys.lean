import Pyhems.Generator.RoleSheet

/-! The key of a row that the script writes. Its class code and EPC are hexadecimal literals, which are
read back as the numbers that they were written for. -/
namespace Pyhems.Generator
open Protocol (hexUpper)

theorem digitValue_digitChar {d : Nat} (h : d < 16) : digitValue 16 (Nat.digitChar d).toUpper = some d := by
  have hall : ∀ d ∈ List.range 16, digitValue 16 (Nat.digitChar d).toUpper = some d := by decide
  exact hall d (List.mem_range.mpr h)

theorem digitValue_underscore (base : Nat) : digitValue base '_' = none := by
  rw [digitValue]
  simp

theorem parseDigits_cons {base value d : Nat} {c : Char} (hc : digitValue base c = some d) (cs : List Char) :
    parseDigits base value (c :: cs) = parseDigits base (value*base+d) cs := by
  have hne : c ≠ '_' := by
    rintro rfl
    cases (digitValue_underscore base).symm.trans hc
  rw [parseDigits.eq_def]
  split
  · next heq => cases heq
  · next heq =>
    cases heq
    exact absurd rfl hne
  · next heq =>
    cases heq
    rw [hc]

/-- The digits of a literal count from its last one. -/
theorem parseDigits_concat {base value n d : Nat} {cs : List Char} (hcs : ∀ c ∈ cs, (digitValue base c).isSome = true)
    (h : parseDigits base value cs = some n) {c : Char} (hc : digitValue base c = some d) :
    parseDigits base value (cs ++ [c]) = some (n*base+d) := by
  induction cs generalizing value with
  | nil =>
    cases h
    exact parseDigits_cons hc []
  | cons first cs ih =>
    obtain ⟨e,he⟩ := Option.isSome_iff_exists.mp (hcs first List.mem_cons_self)
    rw [parseDigits_cons he] at h
    rw [List.cons_append,parseDigits_cons he]
    exact ih (fun c hmem => hcs c (List.mem_cons_of_mem _ hmem)) h

theorem digits_upper (n : Nat) : (∀ c ∈ (Nat.toDigits 16 n).map Char.toUpper, (digitValue 16 c).isSome = true) ∧
    parseDigits 16 0 ((Nat.toDigits 16 n).map Char.toUpper) = some n := by
  induction n using Nat.strongRecOn with
  | ind n ih =>
    rw [Nat.toDigits_eq_if (by decide)]
    split
    · next hlt =>
      have hdigit := digitValue_digitChar hlt
      refine ⟨?_,?_⟩
      · intro c hc
        rw [List.map_singleton,List.mem_singleton] at hc
        rw [hc,hdigit]
        rfl
      · rw [List.map_singleton,parseDigits_cons hdigit,parseDigits,Nat.zero_mul,Nat.zero_add]
    · next hle =>
      obtain ⟨hall,hparse⟩ := ih (n/16) (Nat.div_lt_self (by omega) (by decide))
      have hdigit := digitValue_digitChar (Nat.mod_lt n (show 0 < 16 by decide))
      rw [List.map_append,List.map_singleton]
      refine ⟨?_,?_⟩
      · intro c hc
        obtain hc | hc := List.mem_append.mp hc
        · exact hall c hc
        · rw [List.mem_singleton.mp hc,hdigit]
          rfl
      · rw [parseDigits_concat hall hparse hdigit,Nat.div_add_mod' n 16]

theorem parseDigits_zeros (k : Nat) (cs : List Char) :
    parseDigits 16 0 (List.replicate k '0' ++ cs) = parseDigits 16 0 cs := by
  induction k with
  | zero => rfl
  | succ k ih =>
    have hzero : digitValue 16 '0' = some 0 := by decide
    rw [List.replicate_succ,List.cons_append,parseDigits_cons hzero]
    exact ih

theorem bounds_of_digit {c : Char} (h : (digitValue 16 c).isSome = true) : 48 ≤ c.toNat ∧ c.toNat ≤ 102 := by
  unfold digitValue at h
  have hbounds : ∀ lo hi : Char, lo ≤ c ∧ c ≤ hi → lo.toNat ≤ c.toNat ∧ c.toNat ≤ hi.toNat := fun lo hi hc => hc
  split_ifs at h with hdigit hlower hupper
  · exact ⟨(hbounds _ _ hdigit).1,(hbounds _ _ hdigit).2.trans (by decide)⟩
  · exact ⟨(by decide : 48 ≤ 'a'.toNat).trans (hbounds _ _ hlower).1,(hbounds _ _ hlower).2⟩
  · exact ⟨(by decide : 48 ≤ 'A'.toNat).trans (hbounds _ _ hupper).1,(hbounds _ _ hupper).2.trans (by decide)⟩
  · exact absurd h (by decide)

/-- A digit is no blank. -/
theorem not_intBlank {c : Char} (h : (digitValue 16 c).isSome = true) : intBlank c = false := by
  obtain ⟨hlo,hhi⟩ := bounds_of_digit h
  simp only [intBlank,isSpace,Bool.and_eq_false_iff,decide_eq_false_iff_not]
  omega

theorem dropWhile_eq_self {p : Char → Bool} {l : List Char} (h : ∀ c ∈ l, p c = false) : l.dropWhile p = l := by
  cases l with
  | nil => rfl
  | cons c cs => exact List.dropWhile_cons_of_neg (by simp [h c List.mem_cons_self])

/-- A text without blanks is stripped of nothing. -/
theorem strip_eq_self {blank : Char → Bool} {text : String} (h : ∀ c ∈ text.toList, blank c = false) :
    strip blank text = text.toList := by
  rw [strip,dropWhile_eq_self h,dropWhile_eq_self fun c hc => h c (List.mem_reverse.mp hc),List.reverse_reverse]

/-- A literal that is written is read back. -/
theorem parseInt_hexUpper (width n : Nat) : parseInt ("0x" ++ hexUpper width n) = some (n:Int) := by
  obtain ⟨hall,hparse⟩ := digits_upper n
  have hzero : (digitValue 16 '0').isSome = true := by decide
  generalize hk : width-((Nat.toDigits 16 n).map Char.toUpper).length = k
  have hne : (Nat.toDigits 16 n).map Char.toUpper ≠ [] := by
    rw [Ne,List.map_eq_nil_iff]
    exact Nat.toDigits_ne_nil
  have hlist : ("0x" ++ hexUpper width n).toList =
      '0' :: 'x' :: (List.replicate k '0' ++ (Nat.toDigits 16 n).map Char.toUpper) := by
    simp only [hexUpper,String.toList_append,String.toList_ofList,hk]
    rfl
  have hdigits : ∀ c ∈ List.replicate k '0' ++ (Nat.toDigits 16 n).map Char.toUpper,
      (digitValue 16 c).isSome = true := by
    intro c hc
    obtain hc | hc := List.mem_append.mp hc
    · rw [List.eq_of_mem_replicate hc]
      exact hzero
    · exact hall c hc
  obtain ⟨c,cs,hcs⟩ := List.exists_cons_of_ne_nil (List.append_ne_nil_of_right_ne_nil (List.replicate k '0') hne)
  have hspaces : ∀ c ∈ ("0x" ++ hexUpper width n).toList, intBlank c = false := by
    intro c hc
    rw [hlist] at hc
    obtain rfl | hc := List.mem_cons.mp hc
    · exact not_intBlank hzero
    obtain rfl | hc := List.mem_cons.mp hc
    · decide
    exact not_intBlank (hdigits c hc)
  rw [parseInt,strip_eq_self hspaces,hlist]
  have hvalue := (parseDigits_zeros k _).trans hparse
  rw [hcs] at hvalue ⊢
  exact congrArg (Option.map _) hvalue

example : parseInt "\x0b0x0130\u3000" = some 0x0130 ∧ parseInt "\x1c5" = none := by decide +kernel

theorem rowKey_buildRow (key : Nat × Nat) (props : PropertyInfo) (prior : Option (Column → String)) :
    rowKey (buildRow key.1 key.2 props prior) = some (roleKey key) := by
  rw [rowKey,buildRow,buildRow,parseHexInt,parseHexInt,parseInt_hexUpper,parseInt_hexUpper]
  rfl

end Pyhems.Generator

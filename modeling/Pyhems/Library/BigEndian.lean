import Mathlib.Data.List.Induction
import Mathlib.Tactic.Ring

/-! Fixed-width big-endian numerals over bytes. Reading is total; writing keeps the
low-order digits, so the width is part of the statement of every round trip. -/
namespace Pyhems.Library.BigEndian

/-- The number written by a byte string, most significant byte first. -/
def value (bytes : List UInt8) : Nat := bytes.foldl (fun acc b => acc*256 + b.toNat) 0

/-- The last `width` base-256 digits of a number, most significant first. -/
def digits : (width n : Nat) → List UInt8
  | 0, _ => []
  | width+1, n => digits width (n/256) ++ [UInt8.ofNat n]

@[simp] theorem length_digits (width n : Nat) : (digits width n).length = width := by
  induction width generalizing n with
  | zero => rfl
  | succ width ih => simp [digits,ih]

@[simp] theorem value_nil : value [] = 0 := rfl

theorem value_concat (bytes : List UInt8) (b : UInt8) :
    value (bytes ++ [b]) = value bytes*256 + b.toNat := by
  simp [value]

theorem value_lt (bytes : List UInt8) : value bytes < 256^bytes.length := by
  induction bytes using List.reverseRecOn with
  | nil => simp
  | append_singleton bytes b ih =>
    have hb := b.toNat_lt
    rw [value_concat,List.length_append,List.length_singleton,pow_succ]
    omega

theorem value_digits (width n : Nat) : value (digits width n) = n % 256^width := by
  induction width generalizing n with
  | zero => simp [digits,Nat.mod_one]
  | succ width ih =>
    have hpow : 256^(width+1) = 256*256^width := pow_succ' 256 width
    rw [digits,value_concat,ih,UInt8.toNat_ofNat',hpow,Nat.mod_mul]
    omega

theorem value_digits_of_lt {width n : Nat} (h : n < 256^width) : value (digits width n) = n := by
  rw [value_digits,Nat.mod_eq_of_lt h]

/-- Writing back a read number at the width it was read from restores the bytes. -/
theorem digits_value (bytes : List UInt8) : digits bytes.length (value bytes) = bytes := by
  induction bytes using List.reverseRecOn with
  | nil => rfl
  | append_singleton bytes b ih =>
    have hb := b.toNat_lt
    have hdiv : (value bytes*256 + b.toNat)/256 = value bytes := by omega
    have hlow : UInt8.ofNat (value bytes*256 + b.toNat) = b := by
      apply UInt8.toNat_inj.mp
      rw [UInt8.toNat_ofNat']
      omega
    rw [List.length_append,List.length_singleton,digits,value_concat,hdiv,ih,hlow]

end Pyhems.Library.BigEndian

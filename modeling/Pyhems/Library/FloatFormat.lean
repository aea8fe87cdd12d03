import Mathlib.Algebra.Order.Field.Power
import Mathlib.Algebra.Order.Field.Rat
import Mathlib.Data.Int.Log
import Mathlib.Data.Rat.Floor
import Mathlib.Tactic.Linarith
import Mathlib.Tactic.Positivity

/-! Binary floating-point formats, by the rationals that their numbers stand for. A rational is rounded
to the nearest number of the format, half-way cases to even, and overflows from the half-way point
above the greatest number on. -/
namespace Pyhems.Library

/-- The nearest integer; half-way cases go to the even neighbour. -/
def halfEven (q : ℚ) : ℤ :=
  let below := ⌊q⌋
  if q-below < 1/2 then below
  else if 1/2 < q-below then below+1
  else if below % 2 = 0 then below
  else below+1

variable {q : ℚ} {n : ℤ}

theorem le_halfEven (h : (n : ℚ) ≤ q) : n ≤ halfEven q := by
  have hfloor : n ≤ ⌊q⌋ := Int.le_floor.mpr h
  unfold halfEven
  dsimp only
  split_ifs <;> omega

theorem halfEven_le (h : q ≤ n) : halfEven q ≤ n := by
  have hlow := Int.floor_le q
  have hfloor : ⌊q⌋ ≤ n := by exact_mod_cast hlow.trans h
  -- Above its floor, the number is not yet at the next integer.
  have hnext (habove : (⌊q⌋ : ℚ) < q) : ⌊q⌋+1 ≤ n := by exact_mod_cast habove.trans_le h
  unfold halfEven
  dsimp only
  split_ifs with hbelow habove heven
  · exact hfloor
  · exact hnext (by linarith)
  · exact hfloor
  · exact hnext (by linarith)

theorem halfEven_intCast (n : ℤ) : halfEven n = n := by
  simp [halfEven]

/-- Rounding goes at most half a unit away, and that far only to an even number. -/
theorem halfEven_error (q : ℚ) :
    |(halfEven q : ℚ)-q| ≤ 1/2 ∧ (|(halfEven q : ℚ)-q| = 1/2 → halfEven q % 2 = 0) := by
  have hlow := Int.floor_le q
  have hhigh := Int.lt_floor_add_one q
  unfold halfEven
  dsimp only
  split_ifs with hbelow habove heven
  · rw [abs_of_nonpos (by linarith)]
    exact ⟨by linarith,fun h => absurd h (by linarith)⟩
  · push_cast
    rw [abs_of_nonneg (by linarith)]
    exact ⟨by linarith,fun h => absurd h (by linarith)⟩
  · rw [abs_of_nonpos (by linarith)]
    exact ⟨by linarith,fun _ => heven⟩
  · push_cast
    rw [abs_of_nonneg (by linarith)]
    exact ⟨by linarith,fun _ => by omega⟩

theorem floor_of_pred_le (hlow : (n : ℚ)-1 ≤ q) (hhigh : q < n) : ⌊q⌋ = n-1 := by
  rw [Int.floor_eq_iff]
  push_cast
  exact ⟨hlow,by linarith⟩

/-- An even integer draws its half-way point from below. -/
theorem halfEven_lt_iff (heven : n % 2 = 0) : halfEven q < n ↔ q < n-1/2 := by
  rcases lt_or_ge q n with hlt | hge
  · rcases lt_or_ge q (n-1) with hfar | hnear
    · have hle : halfEven q ≤ n-1 := halfEven_le (by push_cast; exact hfar.le)
      exact iff_of_true (by omega) (by linarith)
    · -- Between the odd integer below and this one.
      have hfloor := floor_of_pred_le hnear hlt
      have hcast : (⌊q⌋ : ℚ) = n-1 := by
        rw [hfloor]
        push_cast
        rfl
      unfold halfEven
      dsimp only
      split_ifs with hbelow habove hodd
      · exact iff_of_true (by omega) (by linarith)
      · exact iff_of_false (by omega) (by linarith)
      · omega
      · exact iff_of_false (by omega) (by linarith)
  · have hle : n ≤ halfEven q := le_halfEven hge
    exact iff_of_false (by omega) (by linarith)

/-- A format: the digits of a number, the exponent of its least unit, and the power of two that bounds
its magnitudes. -/
structure FloatFormat where
  precision : Nat
  least : Int
  bound : Int
  digits : 0 < precision
  room : least+precision ≤ bound

namespace FloatFormat
variable (F : FloatFormat)

/-- The exponent of the last digit of numbers of a magnitude. -/
def unitExponent (q : ℚ) : Int := max (Int.log 2 q+1-F.precision) F.least

def roundMagnitude (q : ℚ) : ℚ := halfEven (q/2^F.unitExponent q)*2^F.unitExponent q

/-- The nearest number, if the range were unbounded. -/
def nearest (q : ℚ) : ℚ := if q < 0 then -F.roundMagnitude (-q) else F.roundMagnitude q

/-- The half-way point above the greatest number. -/
def threshold : ℚ := 2^F.bound-2^(F.bound-F.precision-1)

variable {F}

theorem zpow_add_natCast (e : ℤ) (k : ℕ) : (2 : ℚ)^(e+k) = ((2^k : ℤ) : ℚ)*2^e := by
  rw [zpow_add₀ (by norm_num),zpow_natCast,mul_comm]
  push_cast
  rfl

/-- Rounding does not pass a power of two. -/
theorem roundMagnitude_le {k : ℕ} (h : q ≤ 2^(F.unitExponent q+k)) :
    F.roundMagnitude q ≤ 2^(F.unitExponent q+k) := by
  have hunit : (0 : ℚ) < 2^F.unitExponent q := by positivity
  rw [zpow_add_natCast] at h ⊢
  have hle := halfEven_le ((div_le_iff₀ hunit).mpr h)
  exact mul_le_mul_of_nonneg_right (by exact_mod_cast hle) hunit.le

theorem le_roundMagnitude {k : ℕ} (h : 2^(F.unitExponent q+k) ≤ q) :
    2^(F.unitExponent q+k) ≤ F.roundMagnitude q := by
  have hunit : (0 : ℚ) < 2^F.unitExponent q := by positivity
  rw [zpow_add_natCast] at h ⊢
  have hle := le_halfEven ((le_div_iff₀ hunit).mpr h)
  exact mul_le_mul_of_nonneg_right (by exact_mod_cast hle) hunit.le

theorem roundMagnitude_lt_iff {k : ℕ} (hk : 0 < k) : F.roundMagnitude q < 2^(F.unitExponent q+k) ↔
    q < 2^(F.unitExponent q+k)-2^(F.unitExponent q-1) := by
  have hunit : (0 : ℚ) < 2^F.unitExponent q := by positivity
  have heven : (2^k : ℤ) % 2 = 0 := by
    obtain ⟨m,rfl⟩ := Nat.exists_eq_succ_of_ne_zero hk.ne'
    rw [pow_succ]
    omega
  have hhalf : (2 : ℚ)^(F.unitExponent q-1) = 1/2*2^F.unitExponent q := by
    rw [zpow_sub₀ (by norm_num),zpow_one]
    ring
  rw [zpow_add_natCast,hhalf,← sub_mul,roundMagnitude,mul_lt_mul_iff_left₀ hunit,Int.cast_lt,
    halfEven_lt_iff heven,div_lt_iff₀ hunit]

theorem roundMagnitude_nonneg (h : 0 ≤ q) : 0 ≤ F.roundMagnitude q := by
  have hunit : (0 : ℚ) < 2^F.unitExponent q := by positivity
  have hle : (0 : ℤ) ≤ halfEven (q/2^F.unitExponent q) := le_halfEven (by exact_mod_cast div_nonneg h hunit.le)
  exact mul_nonneg (by exact_mod_cast hle) hunit.le

/-- Numbers on the grid of their own magnitude are not changed. -/
theorem roundMagnitude_eq_self (h : q = n*2^F.unitExponent q) : F.roundMagnitude q = q := by
  have hunit : (2 : ℚ)^F.unitExponent q ≠ 0 := by positivity
  have hquotient : q/2^F.unitExponent q = n := by
    rw [div_eq_iff hunit]
    exact h
  rw [roundMagnitude,hquotient,halfEven_intCast]
  exact h.symm

theorem roundMagnitude_zero : F.roundMagnitude 0 = 0 := roundMagnitude_eq_self (n := 0) (by simp)

theorem threshold_le (F : FloatFormat) : F.threshold ≤ 2^F.bound := by
  have hstep : (0 : ℚ) < 2^(F.bound-F.precision-1) := by positivity
  rw [threshold]
  linarith

/-- Numbers with fewer digits before the point than the range has room for stay in the range. -/
theorem lt_threshold {e : ℤ} (h : q < 2^(e+1)) (he : e+1 < F.bound) : q < F.threshold := by
  have hdigits := F.digits
  have hhalf : (2 : ℚ)^F.bound = 2*2^(F.bound-1) := by
    rw [zpow_sub₀ (by norm_num),zpow_one]
    ring
  have hbelow : (2 : ℚ)^(e+1) ≤ 2^(F.bound-1) := zpow_le_zpow_right₀ (by norm_num) (by omega)
  have hstep : (2 : ℚ)^(F.bound-F.precision-1) ≤ 2^(F.bound-1) :=
    zpow_le_zpow_right₀ (by norm_num) (by omega)
  rw [threshold]
  linarith

theorem roundMagnitude_lt_bound_iff (h : 0 ≤ q) : F.roundMagnitude q < 2^F.bound ↔ q < F.threshold := by
  have hdigits := F.digits
  have hroom := F.room
  rcases h.eq_or_lt with rfl | hpos
  · have hlow : (0 : ℚ) < 2^(F.bound-2+1) := by positivity
    rw [roundMagnitude_zero]
    exact ⟨fun _ => lt_threshold hlow (by omega),fun _ => by positivity⟩
  have hlow : (2 : ℚ)^Int.log 2 q ≤ q := by exact_mod_cast Int.zpow_log_le_self (by norm_num) hpos
  have hhigh : q < (2 : ℚ)^(Int.log 2 q+1) := by exact_mod_cast Int.lt_zpow_succ_log_self (by norm_num) q
  have hunit : F.unitExponent q = max (Int.log 2 q+1-F.precision) F.least := rfl
  rcases lt_trichotomy (Int.log 2 q+1) F.bound with hin | htop | hout
  · -- Far from the bound.
    obtain ⟨k,hk⟩ : ∃ k : ℕ, F.unitExponent q+k = F.bound-1 :=
      ⟨(F.bound-1-F.unitExponent q).toNat,by omega⟩
    have hle : q ≤ 2^(F.unitExponent q+k) := by
      rw [hk]
      exact hhigh.le.trans (zpow_le_zpow_right₀ (by norm_num) (by omega))
    have hround := roundMagnitude_le hle
    rw [hk] at hround
    have hbound : (2 : ℚ)^(F.bound-1) < 2^F.bound := zpow_lt_zpow_right₀ (by norm_num) (by omega)
    exact ⟨fun _ => lt_threshold hhigh hin,fun _ => hround.trans_lt hbound⟩
  · -- The last numbers before the bound.
    have hk : F.unitExponent q+(F.precision : ℤ) = F.bound := by omega
    have hstep : F.unitExponent q-1 = F.bound-F.precision-1 := by omega
    have hiff := roundMagnitude_lt_iff (q := q) (F := F) hdigits
    rwa [hk,hstep] at hiff
  · -- Past the bound.
    obtain ⟨k,hk⟩ : ∃ k : ℕ, F.unitExponent q+k = Int.log 2 q := ⟨F.precision-1,by omega⟩
    have hround := le_roundMagnitude (F := F) (q := q) (hk.symm ▸ hlow)
    rw [hk] at hround
    have hbound : (2 : ℚ)^F.bound ≤ 2^Int.log 2 q := zpow_le_zpow_right₀ (by norm_num) (by omega)
    have hthreshold := F.threshold_le
    exact ⟨fun hlt => absurd hlt (by linarith),fun hlt => absurd hlt (by linarith)⟩

/-! ### Exactness -/

/-- What rounding gives lies on the grid of its own magnitude, also where it reaches the next one. -/
theorem roundMagnitude_roundMagnitude (h : 0 ≤ q) : F.roundMagnitude (F.roundMagnitude q) = F.roundMagnitude q := by
  rcases h.eq_or_lt with rfl | hpos
  · rw [roundMagnitude_zero,roundMagnitude_zero]
  have hdigits := F.digits
  rcases (roundMagnitude_nonneg (F := F) h).eq_or_lt with hzero | hrpos
  · rw [← hzero,roundMagnitude_zero]
  have hhigh : q < (2 : ℚ)^(Int.log 2 q+1) := by exact_mod_cast Int.lt_zpow_succ_log_self (by norm_num) q
  have hunit : F.unitExponent q = max (Int.log 2 q+1-F.precision) F.least := rfl
  have hle : F.roundMagnitude q ≤ 2^(F.unitExponent q+F.precision) :=
    roundMagnitude_le (hhigh.le.trans (zpow_le_zpow_right₀ (by norm_num) (by omega)))
  rcases hle.lt_or_eq with hlt | heq
  · -- The magnitude has not grown past that of the grid.
    have hlog : Int.log 2 (F.roundMagnitude q) < F.unitExponent q+F.precision :=
      (Int.lt_zpow_iff_log_lt (by norm_num) hrpos).mp (by exact_mod_cast hlt)
    have hunit' : F.unitExponent (F.roundMagnitude q) =
        max (Int.log 2 (F.roundMagnitude q)+1-F.precision) F.least := rfl
    obtain ⟨k,hk⟩ : ∃ k : ℕ, F.unitExponent (F.roundMagnitude q)+k = F.unitExponent q :=
      ⟨(F.unitExponent q-F.unitExponent (F.roundMagnitude q)).toNat,by omega⟩
    refine roundMagnitude_eq_self (n := halfEven (q/2^F.unitExponent q)*2^k) ?_
    push_cast
    rw [mul_assoc,← zpow_natCast,← zpow_add₀ (by norm_num),add_comm (k : ℤ),hk]
    rfl
  · -- It is the next power of two.
    have hlog : Int.log 2 (F.roundMagnitude q) = F.unitExponent q+F.precision := by
      rw [heq]
      exact_mod_cast Int.log_zpow (R := ℚ) (b := 2) (by norm_num) (F.unitExponent q+F.precision)
    have hunit' : F.unitExponent (F.roundMagnitude q) =
        max (Int.log 2 (F.roundMagnitude q)+1-F.precision) F.least := rfl
    obtain ⟨k,hk⟩ : ∃ k : ℕ, F.unitExponent (F.roundMagnitude q)+k = F.unitExponent q+F.precision :=
      ⟨F.precision-1,by omega⟩
    refine roundMagnitude_eq_self (n := 2^k) ?_
    push_cast
    rw [← zpow_natCast,← zpow_add₀ (by norm_num),add_comm (k : ℤ),hk]
    exact heq

theorem nearest_nearest (q : ℚ) : F.nearest (F.nearest q) = F.nearest q := by
  by_cases hneg : q < 0
  · have hq : F.nearest q = -F.roundMagnitude (-q) := if_pos hneg
    have hpos : (0 : ℚ) ≤ -q := by linarith
    rcases (roundMagnitude_nonneg (F := F) hpos).eq_or_lt with hzero | hrpos
    · rw [hq,← hzero,neg_zero,nearest,if_neg (lt_irrefl _),roundMagnitude_zero]
    · rw [hq,nearest,if_pos (by linarith),neg_neg,roundMagnitude_roundMagnitude hpos]
  · have hq : F.nearest q = F.roundMagnitude q := if_neg hneg
    have hpos : 0 ≤ q := not_lt.mp hneg
    rw [hq,nearest,if_neg (not_lt.mpr (roundMagnitude_nonneg hpos)),roundMagnitude_roundMagnitude hpos]

theorem abs_nearest (q : ℚ) : |F.nearest q| = F.roundMagnitude |q| := by
  unfold nearest
  split
  · next hneg => rw [abs_neg,abs_of_neg hneg,abs_of_nonneg (roundMagnitude_nonneg (by linarith))]
  · next hpos =>
    rw [not_lt] at hpos
    rw [abs_of_nonneg hpos,abs_of_nonneg (roundMagnitude_nonneg hpos)]

theorem abs_nearest_lt_iff : |F.nearest q| < 2^F.bound ↔ |q| < F.threshold := by
  rw [abs_nearest]
  exact roundMagnitude_lt_bound_iff (abs_nonneg q)

/-! ### Numbers of the format -/

/-- A number of the format: rounding does not change it. -/
structure Rounded (F : FloatFormat) where
  value : ℚ
  exact : F.nearest value = value
  bounded : |value| < 2^F.bound
  deriving DecidableEq

/-- The nearest number of the format; none if it lies beyond the range. -/
def round (F : FloatFormat) (q : ℚ) : Option F.Rounded :=
  if h : |F.nearest q| < 2^F.bound then some ⟨F.nearest q,nearest_nearest q,h⟩ else none

theorem round_eq_some (h : |q| < F.threshold) :
    F.round q = some ⟨F.nearest q,nearest_nearest q,abs_nearest_lt_iff.mpr h⟩ :=
  dif_pos (abs_nearest_lt_iff.mpr h)

/-- Rounding overflows from the threshold on. -/
theorem round_eq_none : F.round q = none ↔ F.threshold ≤ |q| := by
  constructor
  · intro hnone
    by_contra hlt
    cases hnone.symm.trans (round_eq_some (not_le.mp hlt))
  · intro hle
    exact dif_neg fun hlt => absurd (abs_nearest_lt_iff.mp hlt) (not_lt.mpr hle)

theorem round_value (x : F.Rounded) : F.round x.value = some x := by
  obtain ⟨value,hexact,hbounded⟩ := x
  unfold round
  split
  · next => simp only [hexact]
  · next h => exact absurd hbounded (by rwa [hexact] at h)

end FloatFormat

/-- IEEE 754 double precision. -/
def binary64 : FloatFormat where
  precision := 53
  least := -1074
  bound := 1024
  digits := by decide
  room := by decide

example : (binary64.round (1/10)).map FloatFormat.Rounded.value = some (3602879701896397/36028797018963968) := by
  decide +kernel

end Pyhems.Library

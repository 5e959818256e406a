import Mathlib.Data.Int.Log
import Mathlib.Data.Rat.Floor
import Mathlib.Data.List.DropRight
import Gargantua.Lib.Decimal

/-! # `%g` of a rational number

    A number is rounded to the digits that the precision asks for, half to even.
    A small or large one is printed with an exponent, any other one with a
    point, and the zeros at the end of the fraction are left out. -/

namespace GeneralFormat

open CString Decimal

/-- The nearest integer, the even one of two. -/
def roundHalfEven (x : Rat) : Int :=
  let rest := x - ⌊x⌋
  if rest < 1 / 2 then ⌊x⌋
  else if 1 / 2 < rest then ⌊x⌋ + 1
  else if ⌊x⌋ % 2 = 0 then ⌊x⌋
  else ⌊x⌋ + 1

/-- The decimal exponent of a positive number and its first `precision + 1`
    digits, as one number. -/
def significant (precision : Nat) (x : Rat) : Int × Nat :=
  let e := Int.log 10 x
  let n := (roundHalfEven (x * 10 ^ ((precision : Int) - e))).toNat
  if n = 10 ^ (precision + 1) then (e + 1, 10 ^ precision) else (e, n)

/-- A fraction without the zeros at its end. -/
def fraction (digits : Bytes) : Bytes :=
  let kept := digits.rdropWhile (· == 0x30)
  if kept = [] then [] else 0x2E :: kept

/-- An exponent has two digits at least. -/
def exponent (e : Int) : Bytes :=
  0x65 :: (if e < 0 then 0x2D else 0x2B)
    :: (if e.natAbs < 10 then 0x30 :: print e.natAbs else print e.natAbs)

/-- `%.{precision + 1}g`, behind the sign of a number that is not zero. -/
def magnitude (precision : Nat) (x : Rat) : Bytes :=
  let r := significant precision x
  let digits := print r.2
  if r.1 < -4 ∨ r.1 > precision then digits.take 1 ++ fraction (digits.drop 1) ++ exponent r.1
  else if r.1 < 0 then 0x30 :: fraction (List.replicate (-r.1 - 1).toNat 0x30 ++ digits)
  else digits.take (r.1 + 1).toNat ++ fraction (digits.drop (r.1 + 1).toNat)

/-- `%.{precision + 1}g`. -/
def general (precision : Nat) (x : Rat) : Bytes :=
  if x = 0 then [0x30]
  else (if x < 0 then [0x2D] else []) ++ magnitude precision |x|

theorem floor_le_roundHalfEven (x : Rat) : ⌊x⌋ ≤ roundHalfEven x := by
  rw [roundHalfEven]
  split_ifs
  · exact le_refl _
  · exact Int.le_add_one (le_refl _)
  · exact le_refl _
  · exact Int.le_add_one (le_refl _)

theorem roundHalfEven_le (x : Rat) : roundHalfEven x ≤ ⌊x⌋ + 1 := by
  rw [roundHalfEven]
  split_ifs
  · exact Int.le_add_one (le_refl _)
  · exact le_refl _
  · exact Int.le_add_one (le_refl _)
  · exact le_refl _

/-- A positive number has a digit that is not zero. -/
theorem significant_pos (precision : Nat) {x : Rat} (h : 0 < x) : 0 < (significant precision x).2 := by
  have hten : (0 : Rat) < 10 := by norm_num
  have hlog : (10 : Rat) ^ Int.log 10 x ≤ x := Int.zpow_log_le_self (b := 10) (by decide) h
  have hscaled : 1 ≤ x * 10 ^ ((precision : Int) - Int.log 10 x) := by
    calc (1 : Rat) ≤ 10 ^ (precision : Int) := by
          rw [zpow_natCast]
          exact one_le_pow₀ (by norm_num)
      _ = 10 ^ Int.log 10 x * 10 ^ ((precision : Int) - Int.log 10 x) := by
          rw [← zpow_add₀ (ne_of_gt hten), add_sub_cancel]
      _ ≤ x * 10 ^ ((precision : Int) - Int.log 10 x) :=
          mul_le_mul_of_nonneg_right hlog (le_of_lt (zpow_pos hten _))
  have hfloor : 1 ≤ ⌊x * 10 ^ ((precision : Int) - Int.log 10 x)⌋ := Int.le_floor.mpr (by
    rw [Int.cast_one]
    exact hscaled)
  have hround := le_trans hfloor (floor_le_roundHalfEven _)
  rw [significant]
  split
  · exact Nat.pow_pos (by decide)
  · omega

/-- The digits and the exponent of a number between two powers of ten. -/
theorem significant_bounds (precision k : Nat) {x : Rat} (hlow : (10 : Rat) ^ (-(k : Int)) ≤ x)
    (hhigh : x < 10 ^ (k : Int)) :
    (significant precision x).2 < 10 ^ (precision + 1 + 1)
      ∧ -((k : Int) + 1) < (significant precision x).1 ∧ (significant precision x).1 ≤ k := by
  have hten : (1 : Rat) < 10 := by norm_num
  have hpos : 0 < x := lt_of_lt_of_le (zpow_pos (by norm_num) _) hlow
  have hlog : (10 : Rat) ^ Int.log 10 x ≤ x := Int.zpow_log_le_self (b := 10) (by decide) hpos
  have hnext : x < (10 : Rat) ^ (Int.log 10 x + 1) :=
    Int.lt_zpow_succ_log_self (b := 10) (by decide) x
  have hupper : Int.log 10 x < k := (zpow_lt_zpow_iff_right₀ hten).mp (lt_of_le_of_lt hlog hhigh)
  have hlower : -(k : Int) < Int.log 10 x + 1 :=
    (zpow_lt_zpow_iff_right₀ hten).mp (lt_of_le_of_lt hlow hnext)
  have hscaled : x * 10 ^ ((precision : Int) - Int.log 10 x) < 10 ^ (precision + 1) := by
    calc x * 10 ^ ((precision : Int) - Int.log 10 x)
        < 10 ^ (Int.log 10 x + 1) * 10 ^ ((precision : Int) - Int.log 10 x) :=
          mul_lt_mul_of_pos_right hnext (zpow_pos (by norm_num) _)
      _ = 10 ^ ((precision + 1 : Nat) : Int) := by
          rw [← zpow_add₀ (by norm_num)]
          congr 1
          push_cast
          ring
      _ = 10 ^ (precision + 1) := zpow_natCast _ _
  have hfloor : ⌊x * 10 ^ ((precision : Int) - Int.log 10 x)⌋ < 10 ^ (precision + 1) :=
    Int.floor_lt.mpr (by
      push_cast
      exact hscaled)
  have hround := roundHalfEven_le (x * 10 ^ ((precision : Int) - Int.log 10 x))
  have hpow : (10 : Nat) ^ (precision + 1 + 1) = 10 * 10 ^ (precision + 1) := Nat.pow_succ'
  have hone : 0 < 10 ^ (precision + 1) := Nat.pow_pos (by decide)
  have hdigits : (roundHalfEven (x * 10 ^ ((precision : Int) - Int.log 10 x))).toNat
      ≤ 10 ^ (precision + 1) := by
    refine Int.toNat_le.mpr (le_trans hround ?_)
    push_cast
    exact Int.add_one_le_of_lt hfloor
  rw [significant]
  split_ifs
  · refine ⟨Nat.pow_lt_pow_right (by decide) (by omega), ?_, ?_⟩
    · dsimp only
      omega
    · dsimp only
      omega
  · refine ⟨?_, ?_, ?_⟩
    · dsimp only
      omega
    · dsimp only
      omega
    · dsimp only
      omega

theorem fraction_length (digits : Bytes) : (fraction digits).length ≤ digits.length + 1 := by
  have hkept := (List.rdropWhile_prefix (· == 0x30) digits).length_le
  rw [fraction]
  split_ifs
  · exact Nat.zero_le _
  · exact Nat.succ_le_succ hkept

theorem exponent_length {e : Int} (h : e.natAbs < 10 ^ (2 + 1)) : (exponent e).length ≤ 5 := by
  have hprint := print_length e.natAbs h
  rw [exponent, List.length_cons, List.length_cons]
  split_ifs with hsmall
  · have hone := @print_length e.natAbs 0 hsmall
    rw [List.length_cons]
    omega
  · omega

/-- **A number that is not far out is written in few bytes.** -/
theorem general_length (precision : Nat) {x : Rat}
    (h : x = 0 ∨ ((10 : Rat) ^ (-(400 : Nat) : Int) ≤ |x| ∧ |x| < 10 ^ ((400 : Nat) : Int))) :
    (general precision x).length ≤ precision + 9 := by
  rw [general]
  rcases h with rfl | ⟨hlow, hhigh⟩
  · rw [if_pos rfl, List.length_singleton]
    omega
  have hne : x ≠ 0 := by
    rintro rfl
    rw [abs_zero] at hlow
    exact absurd hlow (not_le.mpr (zpow_pos (by norm_num) _))
  obtain ⟨hdigits, hlower, hupper⟩ := significant_bounds precision 400 hlow hhigh
  have hsign : (if x < 0 then [0x2D] else [] : Bytes).length ≤ 1 := by
    split_ifs
    · exact Nat.le_refl 1
    · exact Nat.zero_le 1
  have hprint := print_length (significant precision |x|).2 hdigits
  have hmagnitude : (magnitude precision |x|).length ≤ precision + 8 := by
    rw [magnitude]
    generalize significant precision |x| = r at *
    have hdrop : ∀ n, ((print r.2).drop n).length = (print r.2).length - n :=
      fun n => List.length_drop
    have htake : ∀ n, ((print r.2).take n).length = min n (print r.2).length :=
      fun n => List.length_take
    split_ifs with hfar hsmall
    · have hexp := @exponent_length r.1 (by omega)
      have hfrac := fraction_length ((print r.2).drop 1)
      rw [hdrop] at hfrac
      rw [List.length_append, List.length_append, htake]
      omega
    · have hfrac := fraction_length (List.replicate (-r.1 - 1).toNat 0x30 ++ print r.2)
      rw [List.length_append, List.length_replicate] at hfrac
      rw [List.length_cons]
      omega
    · have hfrac := fraction_length ((print r.2).drop (r.1 + 1).toNat)
      rw [hdrop] at hfrac
      rw [List.length_append, htake]
      omega
  rw [if_neg hne, List.length_append]
  omega

example : general 20 (-1 / 4) = lit "-0.25" := by decide +kernel

end GeneralFormat

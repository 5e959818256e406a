import Gargantua.Lib.CString

/-! # Decimal numbers in print

    `printf` writes a number in decimal without leading zeros.  Reading the
    digits back gives the number. -/

namespace Decimal

open CString

/-- The digit of a number below ten. -/
def digit (n : Nat) : Byte := (0x30 + n).toUInt8

/-- The last `rounds` digits of a number, leading zeros left out. -/
def printLoop : Nat → Nat → Bytes
  | 0, _ => []
  | rounds + 1, n => if n < 10 then [digit n] else printLoop rounds (n / 10) ++ [digit (n % 10)]

/-- `%zu`: a number has at most as many digits as its value plus one. -/
def print (n : Nat) : Bytes := printLoop (n + 1) n

theorem digit_toNat {n : Nat} (h : n < 10) : (digit n).toNat = 0x30 + n :=
  UInt8.toNat_ofNat_of_lt' (show 0x30 + n < 256 by omega)

/-- Reading digits, from a value that stands in front of them. -/
def read (value : Nat) (s : Bytes) : Nat := s.foldl (fun v c => v * 10 + (c.toNat - 48)) value

theorem read_append (value : Nat) (s t : Bytes) :
    read value (s ++ t) = read (read value s) t := List.foldl_append

theorem printLoop_spec : ∀ (rounds n : Nat), n < rounds →
    printLoop rounds n ≠ [] ∧ (∀ c ∈ printLoop rounds n, 0x30 ≤ c ∧ c ≤ 0x39)
      ∧ read 0 (printLoop rounds n) = n
      ∧ (0 < n → (printLoop rounds n).head? ≠ some 0x30) := by
  have hdigit : ∀ {m : Nat}, m < 10 → 0x30 ≤ digit m ∧ digit m ≤ 0x39 := by
    intro m hm
    rw [UInt8.le_iff_toNat_le, UInt8.le_iff_toNat_le, digit_toNat hm]
    exact ⟨Nat.le_add_right _ _, show 0x30 + m ≤ 0x39 by omega⟩
  have hzero : ∀ {m : Nat}, 0 < m → m < 10 → digit m ≠ 0x30 := by
    intro m hpos hm h
    have hn := congrArg UInt8.toNat h
    rw [digit_toNat hm] at hn
    change 0x30 + m = 0x30 at hn
    omega
  intro rounds
  induction rounds with
  | zero => intro n h; exact absurd h (Nat.not_lt_zero n)
  | succ rounds ih =>
      intro n h
      rw [printLoop]
      by_cases hn : n < 10
      · rw [if_pos hn]
        refine ⟨List.cons_ne_nil _ _, List.forall_mem_singleton.mpr (hdigit hn), ?_,
          fun hpos heq => hzero hpos hn (Option.some.inj heq)⟩
        change 0 * 10 + ((digit n).toNat - 48) = n
        rw [digit_toNat hn]
        omega
      · rw [if_neg hn]
        obtain ⟨hne, hall, hread, hhead⟩ := ih (n / 10) (by omega)
        have hmod : n % 10 < 10 := Nat.mod_lt _ (by decide)
        refine ⟨by simp, ?_, ?_, fun _ => ?_⟩
        · intro c hc
          rcases List.mem_append.mp hc with hc | hc
          · exact hall c hc
          · exact List.mem_singleton.mp hc ▸ hdigit hmod
        · rw [read_append, hread]
          change n / 10 * 10 + ((digit (n % 10)).toNat - 48) = n
          rw [digit_toNat hmod]
          omega
        · obtain ⟨c, t, heq⟩ := List.exists_cons_of_ne_nil hne
          rw [heq] at hhead ⊢
          exact hhead (by omega)

variable (n : Nat)

theorem print_ne_nil : print n ≠ [] := (printLoop_spec (n + 1) n (Nat.lt_succ_self n)).1

theorem print_digits : ∀ c ∈ print n, 0x30 ≤ c ∧ c ≤ 0x39 :=
  (printLoop_spec (n + 1) n (Nat.lt_succ_self n)).2.1

/-- **What is printed reads back.** -/
theorem read_print : read 0 (print n) = n :=
  (printLoop_spec (n + 1) n (Nat.lt_succ_self n)).2.2.1

/-- A zero in front is the whole number. -/
theorem print_head (h : (print n).head? = some 0x30) : print n = [0x30] := by
  obtain ⟨-, -, -, hpos⟩ := printLoop_spec (n + 1) n (Nat.lt_succ_self n)
  rcases Nat.eq_zero_or_pos n with rfl | hn
  · rfl
  · exact absurd h (hpos hn)

/-- `%d`: a number below zero has its sign in front. -/
def printInt (n : Int) : Bytes := (if n < 0 then [0x2D] else []) ++ print n.natAbs

/-- A number below a power of ten has as many digits at most. -/
theorem printLoop_length : ∀ (rounds k n : Nat), n < 10 ^ (k + 1) →
    (printLoop rounds n).length ≤ k + 1 := by
  intro rounds
  induction rounds with
  | zero => intro k n _; exact Nat.zero_le _
  | succ rounds ih =>
      intro k n h
      rw [printLoop]
      split
      · exact Nat.succ_le_succ (Nat.zero_le _)
      · rename_i hn
        cases k with
        | zero => exact absurd h (by omega)
        | succ k =>
            have hdiv : n / 10 < 10 ^ (k + 1) := by
              rw [Nat.pow_succ] at h
              omega
            have hlen := ih k (n / 10) hdiv
            rw [List.length_append, List.length_singleton]
            omega

theorem print_length {k : Nat} (h : n < 10 ^ (k + 1)) : (print n).length ≤ k + 1 :=
  printLoop_length (n + 1) k n h

end Decimal

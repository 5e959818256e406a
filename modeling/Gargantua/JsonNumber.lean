import Gargantua.Lib.GeneralFormat
import Gargantua.JsonValue

/-! # Numbers that `printf` writes are JSON's -/

namespace JsonNumber

open CString JsonGrammar JsonValue Decimal GeneralFormat

/-- The numbers that are printed are JSON's. -/
theorem printInt_primitive (n : Int) : Primitive (printInt n) := by
  refine ⟨.num ⟨decide (n < 0), ⟨print n.natAbs, print_ne_nil _, print_digits _⟩,
    print_head n.natAbs, none, none⟩, ?_⟩
  rw [Prim.render, Number.render, renderFrac, renderExp, List.append_nil, List.append_nil,
    renderMinus, printInt]
  by_cases h : n < 0
  · rw [if_pos h, if_pos (decide_eq_true h)]
  · rw [if_neg h, if_neg (fun hd => h (of_decide_eq_true hd))]

theorem print_primitive (n : Nat) : Primitive (print n) := by
  have h := printInt_primitive n
  rw [printInt, if_neg (Int.not_lt.mpr (Int.natCast_nonneg n)), List.nil_append] at h
  exact h

/-! ## `%g` -/

/-- The digits are decimal. -/
def AllDigits (ds : Bytes) : Prop := ∀ c ∈ ds, IsDigit c

theorem fraction_render {ds : Bytes} (h : AllDigits ds) :
    ∃ frac, renderFrac frac = fraction ds := by
  rw [fraction]
  split
  · exact ⟨none, rfl⟩
  · rename_i hne
    exact ⟨some ⟨_, hne, fun c hc => h c ((List.rdropWhile_prefix _ _).subset hc)⟩, rfl⟩

theorem exponent_render (e : Int) : ∃ exp, renderExp exp = exponent e := by
  have hdigits : ∀ c ∈ (if e.natAbs < 10 then 0x30 :: print e.natAbs else print e.natAbs),
      IsDigit c := by
    intro c hc
    split at hc
    · rcases List.mem_cons.mp hc with rfl | hc
      · decide
      · exact print_digits _ c hc
    · exact print_digits _ c hc
  have hne : (if e.natAbs < 10 then 0x30 :: print e.natAbs else print e.natAbs) ≠ [] := by
    split
    · exact List.cons_ne_nil _ _
    · exact print_ne_nil _
  refine ⟨some ⟨false, some (decide (e < 0)), ⟨_, hne, hdigits⟩⟩, ?_⟩
  rw [renderExp, exponent]
  by_cases he : e < 0
  · rw [if_pos he, decide_eq_true he]
    rfl
  · rw [if_neg he, decide_eq_false he]
    rfl

/-- Digits that do not start with a zero start a number. -/
theorem leading_int {n : Nat} (hn : 0 < n) {k : Nat} (hk : 0 < k) :
    ∃ int : Digits, int.bytes = (print n).take k
      ∧ (int.bytes.head? = some 0x30 → int.bytes = [0x30]) := by
  obtain ⟨hne, hdigits, -, hhead⟩ := printLoop_spec (n + 1) n (Nat.lt_succ_self n)
  obtain ⟨k, rfl⟩ := Nat.exists_eq_succ_of_ne_zero (Nat.pos_iff_ne_zero.mp hk)
  change print n ≠ [] at hne
  have hhead' := hhead hn
  change (print n).head? ≠ some 0x30 at hhead'
  obtain ⟨c, cs, hcons⟩ := List.exists_cons_of_ne_nil hne
  rw [hcons] at hhead'
  refine ⟨⟨(print n).take (k + 1), ?_, fun d hd => hdigits d (List.mem_of_mem_take hd)⟩, rfl,
    fun h => absurd ?_ hhead'⟩
  · rw [hcons]
    exact List.cons_ne_nil _ _
  · dsimp only at h
    rw [hcons] at h
    exact h

theorem magnitude_render (precision : Nat) {x : Rat} (h : 0 < x) :
    ∃ int : Digits, (int.bytes.head? = some 0x30 → int.bytes = [0x30]) ∧ ∃ frac exp,
      int.bytes ++ (renderFrac frac ++ renderExp exp) = magnitude precision x := by
  have hpos := significant_pos precision h
  rw [magnitude]
  generalize significant precision x = r at hpos
  obtain ⟨e, n⟩ := r
  have hdigits : AllDigits (print n) := print_digits n
  dsimp only at hpos ⊢
  split
  · obtain ⟨int, hint, hzero⟩ := leading_int hpos (k := 1) Nat.one_pos
    obtain ⟨frac, hfrac⟩ := @fraction_render ((print n).drop 1)
      fun c hc => hdigits c (List.mem_of_mem_drop hc)
    obtain ⟨exp, hexp⟩ := exponent_render e
    exact ⟨int, hzero, frac, exp, by rw [hint, hfrac, hexp, List.append_assoc]⟩
  rename_i hsmall
  split
  · obtain ⟨frac, hfrac⟩ := @fraction_render (List.replicate (-e - 1).toNat 0x30 ++ print n) (by
      intro c hc
      rcases List.mem_append.mp hc with hc | hc
      · rw [List.eq_of_mem_replicate hc]
        decide
      · exact hdigits c hc)
    refine ⟨⟨[0x30], List.cons_ne_nil _ _, by decide⟩, fun _ => rfl, frac, none, ?_⟩
    rw [hfrac, renderExp, List.append_nil]
    rfl
  · obtain ⟨int, hint, hzero⟩ := leading_int hpos (k := (e + 1).toNat) (by omega)
    obtain ⟨frac, hfrac⟩ := @fraction_render ((print n).drop (e + 1).toNat)
      fun c hc => hdigits c (List.mem_of_mem_drop hc)
    exact ⟨int, hzero, frac, none, by rw [hint, hfrac, renderExp, List.append_nil]⟩

/-- `%g` of a finite number is a number. -/
theorem general_number (precision : Nat) (x : Rat) : ∃ n : Number, n.render = general precision x := by
  rw [general]
  split
  · exact ⟨⟨false, ⟨[0x30], List.cons_ne_nil _ _, by decide⟩, fun _ => rfl, none, none⟩, rfl⟩
  · rename_i hne
    obtain ⟨int, hzero, frac, exp, hrender⟩ :=
      @magnitude_render precision |x| (abs_pos.mpr hne)
    refine ⟨⟨decide (x < 0), int, hzero, frac, exp⟩, ?_⟩
    rw [Number.render, hrender, renderMinus]
    by_cases hx : x < 0
    · rw [if_pos hx, if_pos (decide_eq_true hx)]
    · rw [if_neg hx, if_neg (fun hd => hx (of_decide_eq_true hd))]

theorem general_primitive (precision : Nat) (x : Rat) : Primitive (general precision x) := by
  obtain ⟨n, hn⟩ := general_number precision x
  exact ⟨.num n, hn⟩

end JsonNumber

import Mathlib.Algebra.Order.Ring.Int
import Mathlib.Data.List.TakeWhile

/-! # Byte strings and the C string functions

    A buffer is a list of bytes and a pointer into it is the list of bytes from
    the pointer on.  A C string is such a list read up to its first NUL, so the
    functions of the C library are list functions that look for NUL themselves:
    `strchr` finds the terminator, `strncasecmp` stops at it. -/

namespace CString

/-- A byte of a buffer. -/
abbrev Byte := UInt8

/-- The bytes of a buffer. -/
abbrev Bytes := List Byte

/-- A condition on the bytes of a text is decided along the text, not byte value
    by byte value. -/
instance (priority := 2000) decidableBytes (p : Byte → Prop) [DecidablePred p] (s : Bytes) :
    Decidable (∀ c, c ∈ s → p c) :=
  List.decidableBAll p s

/-- Texts are compared by their bytes. -/
instance lawfulBytes : LawfulBEq Bytes := inferInstance

/-- The bytes of an ASCII literal, without its terminator. -/
def lit (s : String) : Bytes :=
  s.toList.map fun c => c.toNat.toUInt8

/-- The C string a buffer holds: everything before the first NUL. -/
def cstr (s : Bytes) : Bytes :=
  s.takeWhile (· != 0)

/-- `strchr(s, c) != NULL`.  The terminating NUL is part of the string, so a
    search for `0` always succeeds. -/
def strchr (s : Bytes) (c : Byte) : Bool :=
  c == 0 || s.contains c

/-- `tolower` in the C locale. -/
def toLower (c : Byte) : Byte :=
  if 0x41 ≤ c && c ≤ 0x5A then c + 0x20 else c

/-- `strncasecmp(a, b, n) == 0`, a list shorter than `n` being terminated by
    NUL. -/
def strncasecmpEq : Nat → Bytes → Bytes → Bool
  | 0, _, _ => true
  | n + 1, a, b =>
      toLower (a.headD 0) == toLower (b.headD 0)
        && (a.headD 0 == 0 || strncasecmpEq n a.tail b.tail)

/-- A C string holds no NUL. -/
theorem cstr_no_nul (s : Bytes) : (0 : Byte) ∉ cstr s := by
  intro h
  have h0 := List.mem_takeWhile_imp h
  exact absurd h0 (by decide)

/-- A write to the first byte of `m`, in a buffer that `d` and `m` are in front of. -/
theorem set_front {d m : Bytes} (hm : m ≠ []) (s : Bytes) (v : Byte) :
    (d ++ (m ++ s)).set d.length v = (d ++ [v]) ++ (m.tail ++ s) := by
  obtain ⟨c, m, rfl⟩ := List.exists_cons_of_ne_nil hm
  rw [List.set_append_right _ _ (Nat.le_refl _), Nat.sub_self, List.cons_append,
    List.set_cons_zero, List.append_assoc]
  rfl

/-- A buffer without NUL is its own C string. -/
theorem cstr_eq_self {s : Bytes} (h : (0 : Byte) ∉ s) : cstr s = s := by
  refine List.takeWhile_eq_self_iff.mpr ?_
  intro c hc
  exact bne_iff_ne.mpr fun h0 => h (h0 ▸ hc)

/-- Text in front of a NUL is the whole C string. -/
theorem cstr_append_nul {s : Bytes} (h : (0 : Byte) ∉ s) (t : Bytes) :
    cstr (s ++ 0 :: t) = s := by
  have hs : ∀ c ∈ s, (c != 0) = true :=
    fun c hc => bne_iff_ne.mpr fun h0 => h (h0 ▸ hc)
  rw [cstr, List.takeWhile_append_of_pos hs, List.takeWhile_cons_of_neg (by decide),
    List.append_nil]

/-- `tolower` neither makes nor removes a NUL. -/
theorem toLower_eq_zero_iff (c : Byte) : toLower c = 0 ↔ c = 0 := by
  cases c with
  | ofBitVec b =>
      revert b
      decide +kernel

/-- Against a string without NUL, `strncasecmp` over the full length is
    equality up to case. -/
theorem strncasecmpEq_iff {b : Bytes} (hb : (0 : Byte) ∉ b) :
    ∀ {a : Bytes}, a.length = b.length →
      (strncasecmpEq b.length a b = true ↔ a.map toLower = b.map toLower) := by
  induction b with
  | nil =>
      intro a ha
      rw [List.length_eq_zero_iff.mp ha]
      exact ⟨fun _ => rfl, fun _ => rfl⟩
  | cons d ds ih =>
      intro a ha
      cases a with
      | nil => exact nomatch ha
      | cons c cs =>
          have hlen : cs.length = ds.length := Nat.succ.inj ha
          have hd : d ≠ 0 := fun h0 => hb (h0 ▸ List.mem_cons_self)
          have hih := ih (fun h0 => hb (List.mem_cons_of_mem d h0)) hlen
          show (toLower c == toLower d && (c == 0 || strncasecmpEq ds.length cs ds))
              = true ↔ _
          rw [List.map_cons, List.map_cons, List.cons.injEq, Bool.and_eq_true,
            beq_iff_eq, Bool.or_eq_true, beq_iff_eq, hih]
          constructor
          · rintro ⟨hcd, h0 | htl⟩
            · -- equal heads exclude a NUL on the left
              rw [h0] at hcd
              have hd0 : toLower d = 0 := hcd.symm
              exact absurd ((toLower_eq_zero_iff d).mp hd0) hd
            · exact ⟨hcd, htl⟩
          · rintro ⟨hcd, htl⟩
            exact ⟨hcd, Or.inr htl⟩

end CString

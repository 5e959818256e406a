import Gargantua.Lib.CString

/-! # C strings in an area of memory

    An area is a function from addresses to bytes.  A string stands at an
    address with its terminator behind it, and stays there while nothing writes
    over its own bytes. -/

namespace TextArea

open CString

abbrev Area := Nat → Byte

/-- `memcpy(m + o, bytes, size)`. -/
def write (m : Area) (o : Nat) (bytes : Bytes) : Area :=
  fun a => if o ≤ a ∧ a < o + bytes.length then bytes.getD (a - o) 0 else m a

/-- The `size` bytes from `o` on. -/
def window (m : Area) (o size : Nat) : Bytes := (List.range size).map fun i => m (o + i)

/-- The C string `text` stands at `o`. -/
def Holds (m : Area) (o : Nat) (text : Bytes) : Prop :=
  (0 : Byte) ∉ text ∧ window m o (text.length + 1) = text ++ [0]

theorem window_congr {m m' : Area} {o size : Nat} (h : ∀ a, o ≤ a → a < o + size → m a = m' a) :
    window m o size = window m' o size :=
  List.map_congr_left fun i hi =>
    h (o + i) (Nat.le_add_right o i) (Nat.add_lt_add_left (List.mem_range.mp hi) o)

theorem write_outside (m : Area) (bytes : Bytes) {o a : Nat} (h : a < o ∨ o + bytes.length ≤ a) :
    write m o bytes a = m a :=
  if_neg (by omega)

/-- What was written stands there. -/
theorem window_write (m : Area) (o : Nat) (bytes : Bytes) :
    window (write m o bytes) o bytes.length = bytes := by
  refine List.ext_getElem (by rw [window, List.length_map, List.length_range]) fun i h1 h2 => ?_
  have hin : o ≤ o + i ∧ o + i < o + bytes.length :=
    ⟨Nat.le_add_right o i, Nat.add_lt_add_left h2 o⟩
  simp only [window, List.getElem_map, List.getElem_range]
  rw [write, if_pos hin, Nat.add_sub_cancel_left, List.getD_eq_getElem?_getD,
    List.getElem?_eq_getElem h2, Option.getD_some]

/-- A string that was written with its terminator. -/
theorem holds_write (m : Area) (o : Nat) {text : Bytes} (h : (0 : Byte) ∉ text) :
    Holds (write m o (text ++ [0])) o text := by
  refine ⟨h, ?_⟩
  have hlen : text.length + 1 = (text ++ [0]).length := by
    rw [List.length_append, List.length_singleton]
  rw [hlen]
  exact window_write m o (text ++ [0])

/-- A string depends on its own bytes. -/
theorem Holds.congr {m m' : Area} {o : Nat} {text : Bytes} (h : Holds m o text)
    (hsame : ∀ a, o ≤ a → a < o + (text.length + 1) → m' a = m a) : Holds m' o text :=
  ⟨h.1, (window_congr hsame).trans h.2⟩

/-- Reading from its address finds the string. -/
theorem Holds.cstr {m : Area} {o : Nat} {text : Bytes} (h : Holds m o text) {size : Nat}
    (hsize : text.length + 1 ≤ size) : cstr (window m o size) = text := by
  obtain ⟨k, rfl⟩ := Nat.exists_eq_add_of_le hsize
  have hsplit : window m o (text.length + 1 + k)
      = text ++ 0 :: (List.range k).map fun i => m (o + (text.length + 1 + i)) := by
    rw [window, List.range_add, List.map_append, List.map_map, ← window, h.2, List.append_assoc]
    rfl
  rw [hsplit]
  exact cstr_append_nul h.1 _

end TextArea

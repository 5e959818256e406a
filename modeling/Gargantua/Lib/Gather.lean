import Mathlib.Data.List.Basic

/-! # Slices that are written one after the other

    A gathering write is given slices of some buffers, and takes bytes off their
    front: whole slices first, then a part of one.  What the slices that are left
    stand for is what was offered without the bytes that were taken
    (`gathered_consume`). -/

namespace Gather

variable {B α : Type}

/-- A part of a buffer. -/
structure Slice (B : Type) where
  buffer : B
  offset : Nat
  len : Nat
  deriving Repr, DecidableEq

/-- The slice lies in its buffer. -/
def Slice.Within (mem : B → List α) (s : Slice B) : Prop := s.offset + s.len ≤ (mem s.buffer).length

/-- What a slice stands for. -/
def Slice.data (mem : B → List α) (s : Slice B) : List α := ((mem s.buffer).drop s.offset).take s.len

/-- What slices stand for. -/
def gathered (mem : B → List α) (slices : List (Slice B)) : List α := slices.flatMap (Slice.data mem)

/-- A slice without its first bytes. -/
def Slice.advance (n : Nat) (s : Slice B) : Slice B := ⟨s.buffer, s.offset + n, s.len - n⟩

/-- A slice that was taken whole. -/
def Slice.empty (s : Slice B) : Slice B := { s with len := 0 }

/-- Bytes are taken off the front: slices that are taken whole stay as empty ones. -/
def consume : List (Slice B) → Nat → List (Slice B)
  | [], _ => []
  | s :: slices, n =>
      if n = 0 then s :: slices
      else if n ≥ s.len then s.empty :: consume slices (n - s.len)
      else s.advance n :: slices

variable {mem : B → List α}

theorem Slice.data_length {s : Slice B} (h : s.Within mem) : (s.data mem).length = s.len := by
  rw [Slice.data, List.length_take, List.length_drop]
  unfold Slice.Within at h
  omega

theorem Slice.data_empty {s : Slice B} (h : s.len = 0) : s.data mem = [] := by
  rw [Slice.data, h, List.take_zero]

theorem Slice.data_advance (s : Slice B) (n : Nat) : (s.advance n).data mem = (s.data mem).drop n := by
  show ((mem s.buffer).drop (s.offset + n)).take (s.len - n) = _
  rw [Slice.data, List.drop_take, List.drop_drop]

theorem Slice.Within.advance {s : Slice B} (h : s.Within mem) {n : Nat} (hn : n ≤ s.len) :
    (s.advance n).Within mem := by
  show s.offset + n + (s.len - n) ≤ (mem s.buffer).length
  unfold Slice.Within at h
  omega

theorem Slice.Within.empty {s : Slice B} (h : s.Within mem) : s.empty.Within mem :=
  Nat.le_trans (Nat.add_le_add_left (Nat.zero_le s.len) s.offset) h

theorem consume_zero (slices : List (Slice B)) : consume slices 0 = slices := by
  cases slices <;> rfl

theorem consume_length : ∀ (slices : List (Slice B)) (n : Nat), (consume slices n).length = slices.length := by
  intro slices
  induction slices with
  | nil => exact fun _ => rfl
  | cons s slices ih =>
      intro n
      rw [consume]
      split
      · rfl
      split
      · rw [List.length_cons, ih, List.length_cons]
      · rfl

/-- The slices stay in their buffers. -/
theorem consume_within : ∀ {slices : List (Slice B)} (n : Nat), (∀ s ∈ slices, s.Within mem) →
    ∀ s ∈ consume slices n, s.Within mem := by
  intro slices
  induction slices with
  | nil => exact fun _ h => h
  | cons s slices ih =>
      intro n h
      obtain ⟨hs, hslices⟩ := List.forall_mem_cons.mp h
      rw [consume]
      split
      · exact h
      split
      · exact List.forall_mem_cons.mpr ⟨hs.empty, ih _ hslices⟩
      · exact List.forall_mem_cons.mpr ⟨hs.advance (by omega), hslices⟩

/-- **The slices that are left** stand for the bytes that were not taken. -/
theorem gathered_consume : ∀ {slices : List (Slice B)} (n : Nat), (∀ s ∈ slices, s.Within mem) →
    gathered mem (consume slices n) = (gathered mem slices).drop n := by
  intro slices
  induction slices with
  | nil => exact fun n _ => (List.drop_nil).symm
  | cons s slices ih =>
      intro n h
      obtain ⟨hs, hslices⟩ := List.forall_mem_cons.mp h
      have hlen := Slice.data_length hs
      have hsplit : (gathered mem (s :: slices)).drop n
          = (s.data mem).drop n ++ (gathered mem slices).drop (n - s.len) := by
        rw [gathered, List.flatMap_cons, List.drop_append, hlen]
        rfl
      rw [consume, hsplit]
      by_cases hzero : n = 0
      · rw [if_pos hzero, hzero, Nat.zero_sub]
        rfl
      rw [if_neg hzero]
      by_cases hwhole : n ≥ s.len
      · rw [if_pos hwhole, List.drop_eq_nil_of_le (by omega), ← ih (n - s.len) hslices, gathered,
          List.flatMap_cons, Slice.data_empty rfl]
        rfl
      · have hrest : n - s.len = 0 := by omega
        rw [if_neg hwhole, hrest, List.drop_zero, ← Slice.data_advance]
        rfl

end Gather

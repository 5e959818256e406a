/-! # Memory with symbolic bytes

    A struct is a range of bytes that typed stores write and typed loads read.
    The bytes of a stored value stay symbolic: a byte is zero, or it is the byte
    at some place of the representation of a value.  So nothing is said about
    byte order, and a load finds a value exactly when all of its bytes are
    there. -/

namespace Memory

variable {V : Type}

/-- A byte of memory. -/
inductive MByte (V : Type) where
  | zero
  | part (v : V) (i : Nat)
  deriving DecidableEq

abbrev Mem (V : Type) := Nat → MByte V

/-- Memory that `memset(_, 0, _)` has cleared. -/
def zeroed : Mem V := fun _ => .zero

/-- `a` is one of the `size` bytes from `o` on. -/
def Within (o size a : Nat) : Prop := o ≤ a ∧ a < o + size

instance (o size a : Nat) : Decidable (Within o size a) := inferInstanceAs (Decidable (_ ∧ _))

/-- Write a value. -/
def store (m : Mem V) (o size : Nat) (v : V) : Mem V :=
  fun a => if Within o size a then .part v (a - o) else m a

/-- `memset(m + o, 0, size)`. -/
def clear (m : Mem V) (o size : Nat) : Mem V :=
  fun a => if Within o size a then .zero else m a

/-- `memcpy(m + o, src + o, size)`. -/
def copy (m src : Mem V) (o size : Nat) : Mem V :=
  fun a => if Within o size a then src a else m a

/-- `memcpy(m + o, src + p, size)`. -/
def transfer (m : Mem V) (o : Nat) (src : Mem V) (p size : Nat) : Mem V :=
  fun a => if Within o size a then src (p + (a - o)) else m a

/-- The `size` bytes from `o` on. -/
def bytesAt (m : Mem V) (o size : Nat) : List (MByte V) := (List.range size).map fun i => m (o + i)

/-- What a load finds. -/
inductive Cell (V : Type) where
  | zero
  | value (v : V)
  | mixed
  deriving DecidableEq

/-- Read `size` bytes. -/
def load [DecidableEq V] (m : Mem V) (o size : Nat) : Cell V :=
  if ∀ i < size, m (o + i) = .zero then .zero
  else
    match m o with
    | .part v 0 => if ∀ i < size, m (o + i) = .part v i then .value v else .mixed
    | _ => .mixed

/-- Two memories have the same bytes there. -/
def AgreeOn (m m' : Mem V) (o size : Nat) : Prop := ∀ a, Within o size a → m a = m' a

/-- The ranges have no byte in common. -/
def Apart (o size o' size' : Nat) : Prop := o + size ≤ o' ∨ o' + size' ≤ o

instance (o size o' size' : Nat) : Decidable (Apart o size o' size') :=
  inferInstanceAs (Decidable (_ ∨ _))

theorem Apart.symm {o size o' size' : Nat} (h : Apart o size o' size') :
    Apart o' size' o size :=
  Or.symm h

theorem Apart.mono {o size o' size' p psize p' psize' : Nat} (h : Apart o size o' size')
    (hp : o ≤ p ∧ p + psize ≤ o + size) (hp' : o' ≤ p' ∧ p' + psize' ≤ o' + size') :
    Apart p psize p' psize' := by
  rcases h with h | h
  · exact Or.inl (by omega)
  · exact Or.inr (by omega)

theorem Apart.not_within {o size o' size' a : Nat} (h : Apart o size o' size')
    (ha : Within o' size' a) : ¬ Within o size a := by
  rintro ⟨h1, h2⟩
  obtain ⟨h3, h4⟩ := ha
  rcases h with h | h <;> omega

theorem AgreeOn.symm {m m' : Mem V} {o size : Nat} (h : AgreeOn m m' o size) :
    AgreeOn m' m o size :=
  fun a ha => (h a ha).symm

theorem AgreeOn.trans {m m' m'' : Mem V} {o size : Nat} (h : AgreeOn m m' o size)
    (h' : AgreeOn m' m'' o size) : AgreeOn m m'' o size :=
  fun a ha => (h a ha).trans (h' a ha)

theorem AgreeOn.mono {m m' : Mem V} {o size o' size' : Nat} (h : AgreeOn m m' o size)
    (hsub : o ≤ o' ∧ o' + size' ≤ o + size) : AgreeOn m m' o' size' :=
  fun a ha => h a ⟨Nat.le_trans hsub.1 ha.1, Nat.lt_of_lt_of_le ha.2 hsub.2⟩

/-! ## Writes elsewhere -/

theorem store_apart (m : Mem V) (v : V) {o size o' size' : Nat} (h : Apart o size o' size') :
    AgreeOn (store m o size v) m o' size' :=
  fun _ ha => if_neg (h.not_within ha)

theorem clear_apart (m : Mem V) {o size o' size' : Nat} (h : Apart o size o' size') :
    AgreeOn (clear m o size) m o' size' :=
  fun _ ha => if_neg (h.not_within ha)

theorem copy_apart (m src : Mem V) {o size o' size' : Nat} (h : Apart o size o' size') :
    AgreeOn (copy m src o size) m o' size' :=
  fun _ ha => if_neg (h.not_within ha)

theorem copy_same (m src : Mem V) (o size : Nat) : AgreeOn (copy m src o size) src o size :=
  fun _ ha => if_pos ha

theorem clear_same (m : Mem V) (o size : Nat) : AgreeOn (clear m o size) zeroed o size :=
  fun _ ha => if_pos ha

theorem transfer_apart (m src : Mem V) (p : Nat) {o size o' size' : Nat}
    (h : Apart o size o' size') : AgreeOn (transfer m o src p size) m o' size' :=
  fun _ ha => if_neg (h.not_within ha)

/-- What was copied stands at its new place. -/
theorem transfer_same (m src : Mem V) (o p : Nat) {size k : Nat} (h : k < size) :
    transfer m o src p size (o + k) = src (p + k) := by
  have hin : Within o size (o + k) := ⟨Nat.le_add_right o k, Nat.add_lt_add_left h o⟩
  rw [transfer, if_pos hin, Nat.add_sub_cancel_left]

theorem bytesAt_congr {m m' : Mem V} {o o' size : Nat} (h : ∀ i < size, m (o + i) = m' (o' + i)) :
    bytesAt m o size = bytesAt m' o' size :=
  List.map_congr_left fun i hi => h i (List.mem_range.mp hi)

theorem AgreeOn.byte {m m' : Mem V} {o size : Nat} (h : AgreeOn m m' o size) :
    ∀ i < size, m (o + i) = m' (o + i) :=
  fun i hi => h (o + i) ⟨Nat.le_add_right o i, Nat.add_lt_add_left hi o⟩

/-! ## Loads -/

section Load

variable [DecidableEq V]

/-- A load depends on its own bytes, wherever they stand. -/
theorem load_bytes {m m' : Mem V} {o o' size : Nat} (hbyte : ∀ i < size, m (o + i) = m' (o' + i))
    (hsize : 0 < size) : load m o size = load m' o' size := by
  have hzero : (∀ i < size, m (o + i) = .zero) ↔ ∀ i < size, m' (o' + i) = .zero :=
    ⟨fun hz i hi => (hbyte i hi).symm.trans (hz i hi), fun hz i hi => (hbyte i hi).trans (hz i hi)⟩
  have hpart : ∀ v : V, (∀ i < size, m (o + i) = .part v i) ↔ ∀ i < size, m' (o' + i) = .part v i :=
    fun v => ⟨fun hz i hi => (hbyte i hi).symm.trans (hz i hi),
      fun hz i hi => (hbyte i hi).trans (hz i hi)⟩
  have hfirst : m o = m' o' := hbyte 0 hsize
  unfold load
  simp only [hzero, hpart, hfirst]

theorem load_congr {m m' : Mem V} {o size : Nat} (h : AgreeOn m m' o size)
    (hsize : 0 < size) : load m o size = load m' o size :=
  load_bytes h.byte hsize

theorem load_clear (m : Mem V) (o size : Nat) : load (clear m o size) o size = .zero :=
  if_pos fun i hi => if_pos ⟨Nat.le_add_right o i, Nat.add_lt_add_left hi o⟩

theorem load_zeroed (o size : Nat) : load (zeroed : Mem V) o size = .zero :=
  if_pos fun _ _ => rfl

/-- What was stored is loaded. -/
theorem load_store (m : Mem V) (v : V) {o size : Nat} (hsize : 0 < size) :
    load (store m o size v) o size = .value v := by
  have hbyte : ∀ i < size, store m o size v (o + i) = .part v i := by
    intro i hi
    have hin : Within o size (o + i) := ⟨Nat.le_add_right o i, Nat.add_lt_add_left hi o⟩
    rw [store, if_pos hin, Nat.add_sub_cancel_left]
  have hfirst : store m o size v o = .part v 0 := hbyte 0 hsize
  have hnonzero : ¬ ∀ i < size, store m o size v (o + i) = .zero := by
    intro h
    have h0 := h 0 hsize
    rw [hbyte 0 hsize] at h0
    exact nomatch h0
  rw [load, if_neg hnonzero, hfirst]
  exact if_pos hbyte

end Load

end Memory

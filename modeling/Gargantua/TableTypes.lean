import Mathlib.Data.List.Pairwise
import Gargantua.Lib.Memory
import Gargantua.GeneratorEmit

/-! # Descriptors of tables (`src/db/db_sqlite.c`)

    A type that is stored as a table is checked once more before it is used: its
    fields are scalars that neither overlap nor share a name, and at most one of
    them is the key, an `int` that is never null. -/

namespace TableTypes

open CString GeneratorText GeneratorEmit RuntimeTypes Memory

section Valid

variable (abi : Abi) (info : TypeInfo)

/-- `is_safe_identifier` on a name that may be `NULL`. -/
def isSafeName : Option Bytes → Bool
  | none => false
  | some name => isSafeIdentifier name

/-- The inner loop of `type_valid`: an earlier field has the name or a byte of
    the field. -/
def collides (f other : FieldInfo) : Bool :=
  f.name == other.name
    || (f.offset < other.offset + other.size && other.offset < f.offset + f.size)

/-- The checks of a field that should take `need` bytes, but for those against
    other fields. -/
def columnFits (f : FieldInfo) (need : Nat) : Bool :=
  isSafeIdentifier f.name && need != 0 && f.size == need && f.offset ≤ info.size
    && need ≤ info.size - f.offset && f.nested.isNone

/-- The loop of `type_valid`, behind the fields `seen` with `keys` keys. -/
def columnsValid : List FieldInfo → Nat → List FieldInfo → Bool
  | _, _, [] => true
  | seen, keys, f :: fields =>
      if columnFits info f (fieldStorageSize abi f.kind f.flags.nullable) = false then false
      else if f.flags.id ∧ (f.kind ≠ .int ∨ f.flags.nullable ∨ keys + 1 > 1) then false
      else if (f.references.isSome ∨ f.referenceKey.isSome)
          ∧ (f.kind ≠ .int ∨ isSafeName f.references = false
            ∨ isSafeName f.referenceKey = false) then false
      else if seen.any (collides f) then false
      else columnsValid (seen ++ [f]) (if f.flags.id then keys + 1 else keys) fields

/-- `type_valid` of the database. -/
def tableValid : Bool :=
  isSafeIdentifier info.name && info.size != 0 && info.fields.length != 0
    && info.fields.length ≤ RUNTIME_MAX_FIELDS && columnsValid abi info [] 0 info.fields

end Valid

/-- What `type_valid` finds of one field. -/
structure Column (abi : Abi) (info : TypeInfo) (f : FieldInfo) : Prop where
  name : isSafeIdentifier f.name = true
  scalar : f.kind ≠ .object
  size : f.size = fieldStorageSize abi f.kind f.flags.nullable
  size_pos : 0 < f.size
  inside : f.offset + f.size ≤ info.size
  key : f.flags.id = true → f.kind = .int ∧ f.flags.nullable = false

/-- A descriptor that the database takes; its size is an `unsigned short`. -/
structure TableType (abi : Abi) (info : TypeInfo) : Prop where
  valid : tableValid abi info = true
  size : info.size ≤ USHRT_MAX

section Columns

variable {abi : Abi} {info : TypeInfo}

theorem columnFits_spec {f : FieldInfo} {keys : Nat}
    (h : columnFits info f (fieldStorageSize abi f.kind f.flags.nullable) = true)
    (hkey : ¬ (f.flags.id ∧ (f.kind ≠ .int ∨ f.flags.nullable ∨ keys + 1 > 1))) :
    Column abi info f := by
  simp only [columnFits, Bool.and_eq_true, bne_iff_ne, ne_eq, beq_iff_eq, decide_eq_true_eq] at h
  obtain ⟨⟨⟨⟨⟨hname, hneed⟩, hsize⟩, hoffset⟩, hroom⟩, -⟩ := h
  refine ⟨hname, ?_, hsize, by omega, by omega, fun hid => ?_⟩
  · intro hobj
    rw [hobj] at hneed
    exact hneed rfl
  · have hno := not_and.mp hkey hid
    rw [not_or, not_or, not_not] at hno
    exact ⟨hno.1, Bool.eq_false_iff.mpr hno.2.1⟩

theorem not_collides {f other : FieldInfo} (h : collides f other = false) :
    f.name ≠ other.name ∧ Apart other.offset other.size f.offset f.size := by
  rw [collides, Bool.or_eq_false_iff, Bool.and_eq_false_iff, beq_eq_false_iff_ne,
    decide_eq_false_iff_not, decide_eq_false_iff_not] at h
  refine ⟨h.1, ?_⟩
  rcases h.2 with h | h
  · exact Or.inl (Nat.not_lt.mp h)
  · exact Or.inr (Nat.not_lt.mp h)

/-- What is known of two fields, in their order. -/
def Distinct (f g : FieldInfo) : Prop :=
  f.name ≠ g.name ∧ Apart f.offset f.size g.offset g.size

/-- What the loop has found behind `seen`, with `keys` keys in it. -/
structure Checked (abi : Abi) (info : TypeInfo) (seen : List FieldInfo) (keys : Nat)
    (fields : List FieldInfo) : Prop where
  column : ∀ f ∈ fields, Column abi info f
  distinct : fields.Pairwise Distinct
  behind : ∀ other ∈ seen, ∀ f ∈ fields, Distinct other f
  oneKey : fields.Pairwise fun f g => f.flags.id = true → g.flags.id = false
  noKey : 1 ≤ keys → ∀ f ∈ fields, f.flags.id = false

/-- The loop looks at every field, and at every two of them. -/
theorem columnsValid_spec : ∀ {fields seen : List FieldInfo} {keys : Nat},
    columnsValid abi info seen keys fields = true → Checked abi info seen keys fields
  | [], _, _, _ => ⟨fun _ h => (nomatch h), .nil, fun _ _ _ h => (nomatch h), .nil,
      fun _ _ h => (nomatch h)⟩
  | f :: fields, seen, keys, h => by
      rw [columnsValid] at h
      by_cases hfits : columnFits info f (fieldStorageSize abi f.kind f.flags.nullable) = false
      · rw [if_pos hfits] at h
        exact nomatch h
      rw [if_neg hfits] at h
      by_cases hkey : f.flags.id ∧ (f.kind ≠ .int ∨ f.flags.nullable ∨ keys + 1 > 1)
      · rw [if_pos hkey] at h
        exact nomatch h
      rw [if_neg hkey] at h
      split at h
      · exact nomatch h
      split at h
      · exact nomatch h
      rename_i hseen
      rw [Bool.not_eq_true, List.any_eq_false] at hseen
      have hrest := columnsValid_spec h
      have hapart : ∀ other ∈ seen, Distinct other f := by
        intro other hother
        obtain ⟨hname, hplace⟩ := not_collides (Bool.eq_false_iff.mpr (hseen other hother))
        exact ⟨fun heq => hname heq.symm, hplace⟩
      have hnext : f.flags.id = true → ∀ g ∈ fields, g.flags.id = false := by
        intro hid g hg
        rw [if_pos hid] at hrest
        exact hrest.noKey (Nat.succ_pos _) g hg
      refine ⟨?_, List.pairwise_cons.mpr ⟨?_, hrest.distinct⟩, ?_,
        List.pairwise_cons.mpr ⟨fun g hg hid => hnext hid g hg, hrest.oneKey⟩, ?_⟩
      · rintro g (_ | ⟨_, hg⟩)
        · exact columnFits_spec (Bool.eq_true_of_not_eq_false hfits) hkey
        · exact hrest.column g hg
      · exact hrest.behind f (List.mem_append_right _ List.mem_cons_self)
      · rintro other hother g (_ | ⟨_, hg⟩)
        · exact hapart other hother
        · exact hrest.behind other (List.mem_append_left _ hother) g hg
      · rintro hkeys g (_ | ⟨_, hg⟩)
        · refine Bool.eq_false_iff.mpr fun hid => hkey ⟨hid, Or.inr (Or.inr ?_)⟩
          omega
        · refine hrest.noKey ?_ g hg
          split_ifs
          · omega
          · exact hkeys

theorem TableType.checked (h : TableType abi info) : Checked abi info [] 0 info.fields := by
  have hvalid := h.valid
  rw [tableValid, Bool.and_eq_true] at hvalid
  exact columnsValid_spec hvalid.2

theorem TableType.length_le (h : TableType abi info) :
    info.fields.length ≤ RUNTIME_MAX_FIELDS := by
  have hvalid := h.valid
  simp only [tableValid, Bool.and_eq_true, decide_eq_true_eq] at hvalid
  exact hvalid.1.2

end Columns

end TableTypes

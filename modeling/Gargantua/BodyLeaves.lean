import Gargantua.Lib.Runs
import Gargantua.BodyRead

/-! # The fields behind the structs

    A type with structs in it is, in the end, a list of fields that are no
    objects, each at an absolute place.  The reader writes the ones that the body
    has a value for and leaves the others alone. -/

namespace BodyLeaves

open CString JsonParse JsonGrammar GeneratorText GeneratorSource RuntimeTypes RuntimeError
  RuntimeObject RuntimeBody BodyTree ObjectFields BodyBinding BodyRead Memory

/-- A field that is no object, at whatever depth: the names on the way to it, and
    where its struct starts. -/
structure Leaf where
  path : List Bytes
  base : Nat
  field : FieldInfo

/-- The leaves of a field. -/
def fieldLeaves (nested : Option Nat → Nat → List Leaf) (base : Nat) (f : FieldInfo) : List Leaf :=
  if f.kind = .object then
    (nested f.nested (base + f.offset)).map fun l => { l with path := f.name :: l.path }
  else [⟨[f.name], base, f⟩]

/-- The leaves of a type. -/
def leaves (ds : Descriptors) : Nat → Option Nat → Nat → List Leaf
  | 0, _, _ => []
  | levels + 1, type, base =>
      match deref ds type with
      | none => []
      | some info => info.fields.flatMap (fieldLeaves (leaves ds levels) base)

/-- What an object has under a name. -/
def child (v : Json .value) (name : Bytes) : Option (Json .value) :=
  (objectPairs v).bind fun ps => find ps name

/-- What a body has under a list of names. -/
def bodyValue : List Bytes → Json .value → Option (Json .value)
  | [], v => some v
  | name :: path, v => (child v name).bind (bodyValue path)

section Leaves

variable {ds : Descriptors} {levels base : Nat} {type : Option Nat}

theorem mem_leaves {l : Leaf} : l ∈ leaves ds (levels + 1) type base ↔
    ∃ info, deref ds type = some info
      ∧ ∃ f ∈ info.fields, l ∈ fieldLeaves (leaves ds levels) base f := by
  rw [leaves]
  cases deref ds type with
  | none => exact ⟨fun h => (nomatch h), fun ⟨_, h, _⟩ => (nomatch h)⟩
  | some info =>
      rw [List.mem_flatMap]
      exact ⟨fun h => ⟨info, rfl, h⟩, fun ⟨_, h1, h2⟩ => by rw [Option.some.inj h1]; exact h2⟩

theorem mem_fieldLeaves {nested : Option Nat → Nat → List Leaf} {f : FieldInfo} {l : Leaf} :
    l ∈ fieldLeaves nested base f ↔
      (f.kind = .object ∧ ∃ l' ∈ nested f.nested (base + f.offset),
          l = { l' with path := f.name :: l'.path })
        ∨ (f.kind ≠ .object ∧ l = ⟨[f.name], base, f⟩) := by
  rw [fieldLeaves]
  by_cases hkind : f.kind = .object
  · rw [if_pos hkind, List.mem_map]
    constructor
    · rintro ⟨l', hl', rfl⟩
      exact Or.inl ⟨hkind, l', hl', rfl⟩
    · rintro (⟨-, l', hl', rfl⟩ | ⟨hne, -⟩)
      · exact ⟨l', hl', rfl⟩
      · exact absurd hkind hne
  · rw [if_neg hkind, List.mem_singleton]
    exact ⟨fun h => Or.inr ⟨hkind, h⟩, fun h => h.elim (fun h => absurd h.1 hkind) (·.2)⟩

/-- **What holds of the leaves of every struct holds of every leaf.** -/
theorem leaves_induction {P : TypeInfo → Prop} {Q : FieldInfo → Prop}
    (hfield : ∀ info, P info → ∀ f ∈ info.fields, f.kind ≠ .object → Q f) :
    ∀ {levels : Nat} {type : Option Nat} {base : Nat}, EveryStruct ds P levels type →
      ∀ l ∈ leaves ds levels type base, Q l.field := by
  intro levels
  induction levels with
  | zero => exact fun h => h.elim
  | succ levels ih =>
      intro type base h l hl
      obtain ⟨info, hinfo, hp, hnested⟩ := h
      obtain ⟨info', hinfo', f, hf, hl⟩ := mem_leaves.mp hl
      obtain rfl := Option.some.inj (hinfo.symm.trans hinfo')
      rcases mem_fieldLeaves.mp hl with ⟨hkind, l', hl', rfl⟩ | ⟨hkind, rfl⟩
      · exact ih (hnested f hf hkind) l' hl'
      · exact hfield info hp f hf hkind

end Leaves

/-! ## Leaves and entries -/

/-- The leaf that an entry is for, with its value. -/
def Entry.leaf (e : Entry) : Option (Nat × FieldInfo × Json .value) :=
  if e.field.kind = .object then none else some (e.base, e.field, e.value)

/-- A leaf with the value that the body has for it. -/
def Leaf.withValue (v : Json .value) (l : Leaf) : Option (Nat × FieldInfo × Json .value) :=
  (bodyValue l.path v).map fun w => (l.base, l.field, w)

section Entries

variable {ds : Descriptors}

theorem withValue_cons {v w : Json .value} {name : Bytes} (h : child v name = some w) (l : Leaf) :
    Leaf.withValue v { l with path := name :: l.path } = Leaf.withValue w l := by
  rw [Leaf.withValue, Leaf.withValue, bodyValue, h]
  rfl

theorem withValue_none {v : Json .value} {name : Bytes} {path : List Bytes} (h : child v name = none)
    (base : Nat) (f : FieldInfo) : Leaf.withValue v ⟨name :: path, base, f⟩ = none := by
  rw [Leaf.withValue, bodyValue, h]
  rfl

theorem fieldLeaves_none {nested : Option Nat → Nat → List Leaf} {base : Nat} {f : FieldInfo}
    {v : Json .value} (h : child v f.name = none) :
    (fieldLeaves nested base f).filterMap (Leaf.withValue v) = [] := by
  refine List.filterMap_eq_nil_iff.mpr fun l hl => ?_
  rcases mem_fieldLeaves.mp hl with ⟨-, l', -, rfl⟩ | ⟨-, rfl⟩
  · exact withValue_none h _ _
  · exact withValue_none h _ _

/-- **The entries are the leaves that the body has a value for.** -/
theorem entries_leaves (levels : Nat) : ∀ (type : Option Nat) (path : Bytes) (base : Nat)
    (v : Json .value) (position index : Nat),
      (entries ds levels type path base v position index).filterMap Entry.leaf
        = (leaves ds levels type base).filterMap (Leaf.withValue v) := by
  induction levels with
  | zero => exact fun _ _ _ _ _ _ => rfl
  | succ levels ih =>
      intro type path base v position index
      rw [entries, leaves]
      cases deref ds type with
      | none => rfl
      | some info =>
          have hpairs := objectMembers_pairs v position index
          cases hms : objectMembers v position index with
          | none =>
              rw [hms] at hpairs
              have hchild : ∀ name, child v name = none := by
                intro name
                rw [child, ← hpairs]
                rfl
              dsimp only
              rw [List.filterMap_flatMap]
              exact (List.flatMap_eq_nil_iff.mpr fun f _ => fieldLeaves_none (hchild f.name)).symm
          | some ms =>
              rw [hms] at hpairs
              have hchild : ∀ name, child v name = (lookup ms name).map (·.value) := by
                intro name
                rw [child, ← hpairs]
                exact lookup_pairs ms name
              dsimp only
              rw [List.filterMap_flatMap, List.filterMap_flatMap]
              refine List.flatMap_congr fun f _ => ?_
              have hf := hchild f.name
              cases hfind : lookup ms f.name with
              | none =>
                  rw [hfind] at hf
                  rw [fieldEntries_none hfind, fieldLeaves_none hf]
                  rfl
              | some m =>
                  rw [hfind] at hf
                  rw [fieldEntries, hfind, fieldLeaves]
                  dsimp only
                  by_cases hkind : f.kind = .object
                  · have hhead : Entry.leaf ⟨joinPath path f.name, base, f, m.value, m.valueAt⟩
                        = none := if_pos hkind
                    rw [if_pos hkind, if_pos hkind, List.filterMap_cons_none hhead, ih,
                      List.filterMap_map]
                    refine List.filterMap_congr fun l _ => ?_
                    exact (withValue_cons hf l).symm
                  · have hhead : Entry.leaf ⟨joinPath path f.name, base, f, m.value, m.valueAt⟩
                        = some (base, f, m.value) := if_neg hkind
                    have hleaf : Leaf.withValue v ⟨[f.name], base, f⟩ = some (base, f, m.value) := by
                      rw [Leaf.withValue, bodyValue, hf]
                      rfl
                    rw [if_neg hkind, if_neg hkind, List.filterMap_cons_some hhead,
                      List.filterMap_cons_some hleaf]
                    rfl

end Entries

/-! ## Where the leaves are -/

/-- The fields of a struct lie in it, a nested struct as long as its own
    descriptor says. -/
structure Fits (ds : Descriptors) (info : TypeInfo) : Prop where
  inside : ∀ f ∈ info.fields, f.offset + f.size ≤ info.size
  nested : ∀ f ∈ info.fields, f.kind = .object →
    ∃ inner, deref ds f.nested = some inner ∧ f.size = inner.size

/-- The fields of a struct have no byte in common. -/
def NoOverlap (info : TypeInfo) : Prop :=
  info.fields.Pairwise fun f g => Apart f.offset f.size g.offset g.size

/-- Two leaves have no byte in common. -/
def Leaf.Apart (l l' : Leaf) : Prop :=
  Memory.Apart (l.base + l.field.offset) l.field.size (l'.base + l'.field.offset) l'.field.size

section Places

variable {ds : Descriptors}

theorem EveryStruct.imp {P Q : TypeInfo → Prop} (h : ∀ info, P info → Q info) :
    ∀ {levels : Nat} {type : Option Nat}, EveryStruct ds P levels type →
      EveryStruct ds Q levels type := by
  intro levels
  induction levels with
  | zero => exact fun h => h
  | succ levels ih =>
      rintro type ⟨info, hinfo, hp, hnested⟩
      exact ⟨info, hinfo, h info hp, fun f hf hkind => ih (hnested f hf hkind)⟩

theorem EveryStruct.and {P Q : TypeInfo → Prop} :
    ∀ {levels : Nat} {type : Option Nat}, EveryStruct ds P levels type →
      EveryStruct ds Q levels type → EveryStruct ds (fun info => P info ∧ Q info) levels type := by
  intro levels
  induction levels with
  | zero => exact fun h _ => h
  | succ levels ih =>
      rintro type ⟨info, hinfo, hp, hnested⟩ ⟨info', hinfo', hq, hnested'⟩
      obtain rfl := Option.some.inj (hinfo.symm.trans hinfo')
      exact ⟨info, hinfo, ⟨hp, hq⟩,
        fun f hf hkind => ih (hnested f hf hkind) (hnested' f hf hkind)⟩

/-- The leaves of a field lie in it, if those of a struct lie in the struct. -/
theorem fieldLeaves_inside {levels : Nat}
    (hin : ∀ {type : Option Nat} {base : Nat} {info : TypeInfo}, EveryStruct ds (Fits ds) levels type →
      deref ds type = some info → ∀ l ∈ leaves ds levels type base,
        base ≤ l.base + l.field.offset
          ∧ l.base + l.field.offset + l.field.size ≤ base + info.size)
    {info : TypeInfo} (hfits : Fits ds info) {f : FieldInfo} (hf : f ∈ info.fields)
    (hnested : f.kind = .object → EveryStruct ds (Fits ds) levels f.nested) {base : Nat} :
    ∀ l ∈ fieldLeaves (leaves ds levels) base f,
      base + f.offset ≤ l.base + l.field.offset
        ∧ l.base + l.field.offset + l.field.size ≤ base + f.offset + f.size := by
  intro l hl
  rcases mem_fieldLeaves.mp hl with ⟨hkind, l', hl', rfl⟩ | ⟨-, rfl⟩
  · obtain ⟨inner, hinner, hsize⟩ := hfits.nested f hf hkind
    have h := hin (hnested hkind) hinner l' hl'
    rw [hsize]
    exact h
  · exact ⟨Nat.le_refl _, Nat.le_refl _⟩

/-- The leaves of a struct lie in it. -/
theorem leaves_inside {levels : Nat} : ∀ {type : Option Nat} {base : Nat} {info : TypeInfo},
    EveryStruct ds (Fits ds) levels type → deref ds type = some info →
    ∀ l ∈ leaves ds levels type base,
      base ≤ l.base + l.field.offset
        ∧ l.base + l.field.offset + l.field.size ≤ base + info.size := by
  induction levels with
  | zero => exact fun h => h.elim
  | succ levels ih =>
      intro type base info h hinfo l hl
      obtain ⟨info', hinfo', hfits, hnested⟩ := h
      obtain rfl := Option.some.inj (hinfo.symm.trans hinfo')
      obtain ⟨info', hinfo', f, hf, hl⟩ := mem_leaves.mp hl
      obtain rfl := Option.some.inj (hinfo.symm.trans hinfo')
      have hin := fieldLeaves_inside ih hfits hf (hnested f hf) l hl
      have hfield := hfits.inside f hf
      omega

/-- **The leaves have no byte in common.** -/
theorem leaves_apart {levels : Nat} : ∀ {type : Option Nat} {base : Nat},
    EveryStruct ds (fun info => Fits ds info ∧ NoOverlap info) levels type →
    (leaves ds levels type base).Pairwise Leaf.Apart := by
  induction levels with
  | zero => exact fun h => h.elim
  | succ levels ih =>
      intro type base h
      obtain ⟨info, hinfo, ⟨hfits, hapart⟩, hnested⟩ := h
      rw [leaves, hinfo]
      refine List.pairwise_flatMap.mpr ⟨fun f hf => ?_, ?_⟩
      · rw [fieldLeaves]
        split_ifs with hkind
        · exact List.pairwise_map.mpr (ih (hnested f hf hkind))
        · exact List.pairwise_singleton _ _
      · refine List.Pairwise.imp_of_mem (fun {f g} hf hg hfg l hl l' hl' => ?_) hapart
        have hfits' : ∀ f ∈ info.fields, f.kind = .object →
            EveryStruct ds (Fits ds) levels f.nested :=
          fun f hf hkind => EveryStruct.imp (fun _ h => h.1) (hnested f hf hkind)
        have h1 := fieldLeaves_inside leaves_inside hfits hf (hfits' f hf) l hl
        have h2 := fieldLeaves_inside leaves_inside hfits hg (hfits' g hg) l' hl'
        rcases hfg with hfg | hfg
        · exact Or.inl (by omega)
        · exact Or.inr (by omega)

/-- Two different leaves have no byte in common. -/
theorem apart_of_ne {ls : List Leaf} (h : ls.Pairwise Leaf.Apart) {l l' : Leaf} (hl : l ∈ ls)
    (hl' : l' ∈ ls) (hne : l ≠ l') : l.Apart l' := by
  have hsymm : Std.Symm Leaf.Apart := ⟨fun _ _ h => h.symm⟩
  exact h.forall hl hl' hne

end Places

/-! ## Where the values are -/

/-- The values of two entries for leaves have no byte of the text in common. -/
def Entry.TextApart (e e' : Entry) : Prop :=
  e.field.kind ≠ .object → e'.field.kind ≠ .object →
    e.position + e.value.render.length ≤ e'.position
      ∨ e'.position + e'.value.render.length ≤ e.position

section Texts

variable {abi : Abi} {ds : Descriptors}

theorem entries_textApart (levels : Nat) : ∀ (type : Option Nat) (path : Bytes) (base : Nat)
    (v : Json .value) (position index : Nat), EveryStruct ds (Readable abi) levels type →
      (entries ds levels type path base v position index).Pairwise Entry.TextApart := by
  induction levels with
  | zero => exact fun _ _ _ _ _ _ h => h.elim
  | succ levels ih =>
      intro type path base v position index h
      obtain ⟨info, hinfo, hread, hnested⟩ := h
      rw [entries, hinfo]
      cases hms : objectMembers v position index with
      | none => exact List.Pairwise.nil
      | some ms =>
          have hord := objectMembers_ordered hms
          refine List.pairwise_flatMap.mpr ⟨fun f hf => ?_, ?_⟩
          · rw [fieldEntries]
            cases hfind : lookup ms f.name with
            | none => exact List.Pairwise.nil
            | some m =>
                refine List.pairwise_cons.mpr ⟨fun e he hleaf => ?_, ?_⟩
                · -- a leaf has no entries behind its own
                  rw [if_neg hleaf] at he
                  cases he
                · split_ifs with hkind
                  · exact ih _ _ _ _ _ _ (hnested f hf hkind)
                  · exact List.Pairwise.nil
          · have hnames := List.pairwise_map.mp hread.names
            refine hnames.imp fun {f g} hne e he e' he' _ _ => ?_
            cases hfind : lookup ms f.name with
            | none => rw [fieldEntries_none hfind] at he; cases he
            | some m =>
            cases hfind' : lookup ms g.name with
            | none => rw [fieldEntries_none hfind'] at he'; cases he'
            | some m' =>
            have h1 := fieldEntries_within (@entries_within ds levels) hfind e he
            have h2 := fieldEntries_within (@entries_within ds levels) hfind' e' he'
            obtain ⟨hm, hname⟩ := lookup_some hfind
            obtain ⟨hm', hname'⟩ := lookup_some hfind'
            have hmm : m ≠ m' := by
              rintro rfl
              exact hne (hname.symm.trans hname')
            have hkey := (hord.between m hm).key
            have hkey' := (hord.between m' hm').key
            rcases hord.apart hm hm' hmm with ha | ha
            · exact Or.inl (by omega)
            · exact Or.inr (by omega)

end Texts

end BodyLeaves

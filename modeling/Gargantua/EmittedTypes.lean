import Gargantua.GeneratorAccepted
import Gargantua.GeneratorEmit

/-! # Emitted descriptors at run time

    The generator bounds how deep types are nested; the runtime bounds that as
    well, and also how many nested descriptors it visits, a type that is used
    twice counting twice.  For an accepted model the second bound is the only
    one that a descriptor can fail. -/

namespace EmittedTypes

open RouteGenerator hiding ParsedRoute
open CString GeneratorText GeneratorSource GeneratorValidate GeneratorEmit RuntimeTypes
open GeneratorAuth GeneratorTypes GeneratorAccepted

/-! ## What the runtime visits -/

section Visits

variable (types : List ParsedType)

/-- The descriptors visited for the nested fields, when `visits` are those of
    their types. -/
def fieldVisits (visits : Nat → Nat) : List ParsedField → Nat
  | [] => 0
  | f :: fields =>
      (if isObject f then (typeIndex types f.cType).elim 0 visits else 0)
        + fieldVisits visits fields

/-- The descriptors visited from the type at `i`, itself included and repeats
    counted, down to some levels of nesting. -/
def nestedVisits : Nat → Nat → Nat
  | 0, _ => 0
  | levels + 1, i =>
      1 + (types[i]?).elim 0 fun t => fieldVisits types (nestedVisits levels) t.fields

end Visits

/-- What is left of `remaining` behind `visits` descriptors. -/
def spend (remaining visits : Nat) : Option Nat :=
  if visits ≤ remaining then some (remaining - visits) else none

theorem spend_zero (remaining : Nat) : spend remaining 0 = some remaining := rfl

/-- Descriptors may be visited one part after another. -/
theorem spend_add (remaining a b : Nat) :
    spend remaining (a + b) = (spend remaining a).bind fun rest => spend rest b := by
  rw [spend, spend]
  by_cases ha : a ≤ remaining
  · rw [if_pos ha, Option.bind_some, spend]
    by_cases hb : b ≤ remaining - a
    · rw [if_pos hb, if_pos (by omega), Nat.sub_sub]
    · rw [if_neg hb, if_neg (by omega)]
  · rw [if_neg ha, if_neg (by omega), Option.bind_none]

/-! ## Names and sizes -/

/-- What the generator calls a safe name, the runtime does too. -/
theorem isSafeIdentifier_runtime {name : Bytes} (h : RouteGenerator.isSafeIdentifier name = true) :
    RuntimeTypes.isSafeIdentifier name = true := by
  rw [RouteGenerator.isSafeIdentifier] at h
  split at h
  · exact nomatch h
  rename_i hhead
  simp only [Bool.or_eq_true, not_or, Bool.not_eq_true, Bool.not_eq_false'] at hhead
  obtain ⟨hlength, htail⟩ := Bool.and_eq_true_iff.mp h
  have hlt : name.length < RUNTIME_MAX_TEXT :=
    (of_decide_eq_true hlength).trans (by decide)
  rw [RuntimeTypes.isSafeIdentifier, hhead.1.1, htail, decide_eq_true hlt]
  rfl

theorem ushort_of_le {n : Nat} (h : n ≤ USHRT_MAX) : ushort n = n :=
  Nat.mod_eq_of_lt (Nat.lt_succ_of_le h)

theorem isObject_iff {f : ParsedField} : isObject f = true ↔ f.kind = some .object := beq_iff_eq

/-- A field that is no object takes some bytes. -/
theorem fieldStorageSize_pos (abi : Abi) {f : ParsedField} (h : FieldShape f) {kind : FieldKind}
    (hkind : f.kind = some kind) (hobject : kind ≠ .object) :
    0 < fieldStorageSize abi kind f.flags.nullable := by
  cases kind with
  | object => exact absurd rfl hobject
  | int => rw [fieldStorageSize]; split; exacts [abi.sizeOfNullable_pos _, abi.sizeOf_pos _]
  | long => rw [fieldStorageSize]; split; exacts [abi.sizeOfNullable_pos _, abi.sizeOf_pos _]
  | double => rw [fieldStorageSize]; split; exacts [abi.sizeOfNullable_pos _, abi.sizeOf_pos _]
  | bool => rw [fieldStorageSize]; split; exacts [abi.sizeOfNullable_pos _, abi.sizeOf_pos _]
  | str =>
      have hplain : f.flags.nullable = false := by
        by_contra hc
        have hstr := Option.some.inj (h.kind.symm.trans hkind)
        rcases h.nullable (Bool.not_eq_false _ ▸ hc) with ht | ht | ht | ht <;>
          exact absurd (ht ▸ hstr) (by decide)
      rw [fieldStorageSize, hplain]
      exact abi.sizeOf_pos _

section Emitted

variable {abi : Abi} {types : List ParsedType} (layout : Layout abi types)

/-! ## Emission -/

/-- The descriptor of a field that has a kind. -/
theorem emitField_eq {i j : Nat} {f : ParsedField} {kind : FieldKind} (h : f.kind = some kind) :
    ∃ info, emitField layout i j f = some info ∧ info.name = f.name ∧ info.kind = kind
      ∧ info.flags = f.flags ∧ info.offset = ushort (layout.offset i j)
      ∧ info.size = ushort (memberSize abi types layout.size f)
      ∧ info.nested = if kind = .object then typeIndex types f.cType else none := by
  rw [emitField, h]
  exact ⟨_, rfl, rfl, rfl, rfl, rfl, rfl, rfl⟩

theorem emitFields_eq (i : Nat) (fields : List ParsedField) :
    ∀ j : Nat, (∀ f ∈ fields, FieldShape f) →
      ∃ infos, emitFields layout i j fields = some infos ∧ infos.length = fields.length := by
  induction fields with
  | nil => exact fun j _ => ⟨[], rfl, rfl⟩
  | cons f fields ih =>
      intro j h
      obtain ⟨info, hinfo, -⟩ := emitField_eq layout (i := i) (j := j) (h f List.mem_cons_self).kind
      obtain ⟨infos, hinfos, hlength⟩ :=
        ih (j + 1) fun g hg => h g (List.mem_cons_of_mem _ hg)
      exact ⟨info :: infos, by rw [emitFields, hinfo, hinfos], congrArg (· + 1) hlength⟩

/-- The descriptor of an accepted type. -/
theorem descriptor_eq (h : TypesAccepted types) {i : Nat} {t : ParsedType}
    (hi : types[i]? = some t) :
    ∃ info, descriptors layout i = some info ∧ info.name = t.name
      ∧ info.size = ushort (layout.size i) ∧ emitFields layout i 0 t.fields = some info.fields
      ∧ info.fields.length = t.fields.length := by
  have htype := h.type t (List.mem_of_getElem? hi)
  obtain ⟨infos, hinfos, hlength⟩ := emitFields_eq layout i t.fields 0 htype.field
  refine ⟨{ name := t.name, size := ushort (layout.size i), fields := infos }, ?_, rfl, rfl,
    hinfos, hlength⟩
  rw [descriptors, hi]
  show emitType layout i t = _
  rw [emitType, List.take_of_length_le htype.length, hinfos]
  rfl

/-! ## The walk -/

/-- A field passes its checks, once `expected` is the size of its member. -/
theorem fieldFits_emitted (hfit : SizesFit layout) {i j : Nat} {t : ParsedType} {f : ParsedField}
    (hi : types[i]? = some t) (hj : t.fields[j]? = some f) (hshape : FieldShape f)
    {info : FieldInfo} {type : TypeInfo} (hname : info.name = f.name)
    (hoffset : info.offset = ushort (layout.offset i j))
    (hsize : info.size = ushort (memberSize abi types layout.size f))
    (htype : type.size = ushort (layout.size i)) {expected : Nat}
    (hexpected : expected = memberSize abi types layout.size f) (hpos : 0 < expected) :
    fieldFits type info expected = true := by
  obtain ⟨hlt, rfl⟩ := List.getElem?_eq_some_iff.mp hi
  obtain ⟨hlt', rfl⟩ := List.getElem?_eq_some_iff.mp hj
  obtain ⟨hstruct, hmembers⟩ := hfit i hlt
  obtain ⟨hoff, hmember⟩ := hmembers j hlt'
  have hinside := layout.inside i hlt j hlt'
  rw [ushort_of_le hoff] at hoffset
  rw [ushort_of_le hmember] at hsize
  rw [ushort_of_le hstruct] at htype
  rw [fieldFits, hname, isSafeIdentifier_runtime hshape.name, hoffset, hsize, htype, ← hexpected]
  have hle : layout.offset i j ≤ layout.size i := (Nat.le_add_right _ _).trans hinside
  have hroom : expected ≤ layout.size i - layout.offset i j :=
    Nat.le_sub_of_add_le' (hexpected ▸ hinside)
  rw [decide_eq_true hle, decide_eq_true hroom, BEq.rfl, bne_iff_ne.mpr hpos.ne']
  rfl

/-- The descriptor of a nested type has the size of the member. -/
theorem deref_size (h : TypesAccepted types) (hfit : SizesFit layout) {k : Nat}
    (hk : k < types.length) :
    (deref (descriptors layout) (some k)).elim 0 (·.size) = layout.size k ∧ 0 < layout.size k := by
  have hget := List.getElem?_eq_getElem hk
  obtain ⟨info, hdescriptor, -, hsize, -⟩ := descriptor_eq layout h hget
  refine ⟨?_, layout.size_pos k hk (h.type _ (List.getElem_mem hk)).nonempty⟩
  show (descriptors layout k).elim 0 (·.size) = _
  rw [hdescriptor]
  exact hsize.trans (ushort_of_le (hfit k hk).1)

theorem emitFields_cons {i j : Nat} {f : ParsedField} {fields : List ParsedField}
    {info : FieldInfo} {infos : List FieldInfo} (hinfo : emitField layout i j f = some info)
    (h : emitFields layout i j (f :: fields) = some infos) :
    ∃ rest, emitFields layout i (j + 1) fields = some rest ∧ infos = info :: rest := by
  rw [emitFields, hinfo] at h
  cases hrest : emitFields layout i (j + 1) fields with
  | none =>
      rw [hrest] at h
      exact nomatch h
  | some rest =>
      rw [hrest] at h
      exact ⟨rest, rfl, (Option.some.inj h).symm⟩

/-- The walk over the fields of a type visits their nested types one after another. -/
theorem fieldsValid_emitted (h : TypesAccepted types) (hfit : SizesFit layout) {levels i : Nat}
    {t : ParsedType} (hi : types[i]? = some t) {type : TypeInfo}
    (htype : type.size = ushort (layout.size i))
    (hnested : ∀ f ∈ t.fields, isObject f = true → ∃ k, typeIndex types f.cType = some k
      ∧ ∀ remaining, typeValidNested abi (descriptors layout) levels (some k) remaining
        = spend remaining (nestedVisits types levels k))
    (fields : List ParsedField) :
    ∀ (j : Nat) (infos : List FieldInfo), t.fields.drop j = fields →
      emitFields layout i j fields = some infos → ∀ remaining,
      fieldsValid abi (descriptors layout) (typeValidNested abi (descriptors layout) levels) type
          infos remaining
        = spend remaining (fieldVisits types (nestedVisits types levels) fields) := by
  induction fields with
  | nil =>
      intro j infos _ hinfos remaining
      obtain rfl := Option.some.inj hinfos
      rfl
  | cons f fields ih =>
      intro j infos hdrop hinfos remaining
      have hj : t.fields[j]? = some f := by
        have hget : (t.fields.drop j)[0]? = t.fields[j + 0]? := List.getElem?_drop
        rw [hdrop] at hget
        exact hget.symm
      have hmem : f ∈ t.fields := List.mem_of_getElem? hj
      have hshape := (h.type t (List.mem_of_getElem? hi)).field f hmem
      have hrest : t.fields.drop (j + 1) = fields := by
        rw [← List.drop_drop, hdrop]
        rfl
      obtain ⟨info, hinfo, hname, hkind, hflags, hoffset, hsize, hpointer⟩ :=
        emitField_eq layout (i := i) (j := j) hshape.kind
      obtain ⟨infos, htail, rfl⟩ := emitFields_cons layout hinfo hinfos
      have hfits : ∀ expected, expected = memberSize abi types layout.size f → 0 < expected →
          fieldFits type info expected = true := fun expected =>
        fieldFits_emitted layout hfit hi hj hshape hname hoffset hsize htype
      rw [fieldsValid, fieldVisits, spend_add]
      by_cases hobject : isObject f = true
      · obtain ⟨k, hk, hvisit⟩ := hnested f hmem hobject
        have hsome := isObject_iff.mp hobject
        have hkind' : info.kind = .object :=
          hkind.trans (Option.some.inj (hshape.kind.symm.trans hsome))
        rw [if_pos (hkind ▸ hkind'), hk] at hpointer
        obtain ⟨hderef, hpos⟩ := deref_size layout h hfit (typeIndex_lt hk)
        have hmember : layout.size k = memberSize abi types layout.size f := by
          rw [memberSize, hsome, hk]
          rfl
        rw [if_pos hkind', if_pos hobject, hpointer, hvisit, hk, Option.elim_some, hderef]
        cases spend remaining (nestedVisits types levels k) with
        | none => rfl
        | some rest =>
            rw [Option.bind_some]
            exact (if_pos (hfits _ hmember hpos)).trans (ih (j + 1) infos hrest htail rest)
      · have hkind' : info.kind ≠ .object := fun hc =>
          hobject (isObject_iff.mpr (hshape.kind.trans (congrArg some (hkind.symm.trans hc))))
        have hsome : f.kind = some info.kind := hshape.kind.trans (congrArg some hkind.symm)
        have hmember : fieldStorageSize abi info.kind f.flags.nullable
            = memberSize abi types layout.size f := by
          rw [memberSize, hsome]
          generalize info.kind = kind at hkind'
          cases kind with
          | object => exact absurd rfl hkind'
          | _ => rfl
        rw [if_neg hkind', if_neg hobject, hflags, spend_zero, Option.bind_some,
          if_pos (hfits _ hmember (fieldStorageSize_pos abi hshape hsome hkind'))]
        exact ih (j + 1) infos hrest htail remaining

/-- **The walk of the runtime over an emitted descriptor** fails only where it
    runs out of descriptors to visit, when there are as many levels as the type
    is deep. -/
theorem typeValidNested_emitted (h : TypesAccepted types) (hfit : SizesFit layout)
    {depth : Nat → Nat} (hdepth : ∀ i t, types[i]? = some t →
      1 ≤ depth i ∧ ∀ f ∈ t.fields, isObject f = true →
        ∃ k, typeIndex types f.cType = some k ∧ depth k + 1 ≤ depth i) (levels : Nat) :
    ∀ i : Nat, i < types.length → depth i ≤ levels → ∀ remaining,
      typeValidNested abi (descriptors layout) levels (some i) remaining
        = spend remaining (nestedVisits types levels i) := by
  induction levels with
  | zero =>
      intro i hi hle
      exact absurd (hdepth i _ (List.getElem?_eq_getElem hi)).1 (by omega)
  | succ levels ih =>
      intro i hi hle remaining
      have hget := List.getElem?_eq_getElem hi
      obtain ⟨-, hnested⟩ := hdepth i _ hget
      obtain ⟨info, hdescriptor, hname, hsize, hinfos, hlength⟩ := descriptor_eq layout h hget
      have htype := h.type _ (List.getElem_mem hi)
      rw [nestedVisits, Nat.add_comm 1]
      cases remaining with
      | zero => rfl
      | succ remaining =>
          have hpos : info.size ≠ 0 := by
            rw [hsize, ushort_of_le (hfit i hi).1]
            exact (layout.size_pos i hi htype.nonempty).ne'
          have hne : info.fields.length ≠ 0 := fun hc =>
            htype.nonempty (List.length_eq_zero_iff.mp (hlength.symm.trans hc))
          have hheader : headerValid info = true := by
            rw [headerValid, hname, isSafeIdentifier_runtime htype.name,
              decide_eq_true (hlength.trans_le htype.length), bne_iff_ne.mpr hne,
              bne_iff_ne.mpr hpos]
            rfl
          have hbelow : ∀ f ∈ types[i].fields, isObject f = true →
              ∃ k, typeIndex types f.cType = some k ∧ ∀ remaining,
                typeValidNested abi (descriptors layout) levels (some k) remaining
                  = spend remaining (nestedVisits types levels k) := by
            intro f hf hobject
            obtain ⟨k, hk, hlt⟩ := hnested f hf hobject
            exact ⟨k, hk, ih k (typeIndex_lt hk) (by omega)⟩
          have hwalk := fieldsValid_emitted layout h hfit hget hsize hbelow types[i].fields 0
            info.fields rfl hinfos remaining
          rw [typeValidNested, deref, Option.bind_some, hdescriptor]
          dsimp only
          rw [if_pos hheader, hwalk, hget, Option.elim_some, spend, spend, Nat.add_sub_add_right]
          simp only [Nat.add_le_add_iff_right]

/-- An emitted descriptor is valid if the walk does not run out. -/
theorem typeValid_emitted (h : TypesAccepted types) (hfit : SizesFit layout) {i : Nat}
    (hi : i < types.length) :
    typeValid abi (descriptors layout) (some i) = true
      ↔ nestedVisits types NEST_DEPTH_MAX i ≤ RUNTIME_MAX_TYPES := by
  obtain ⟨depth, hdepth⟩ := h.depth
  have hwalk := typeValidNested_emitted layout h hfit
    (fun i t hi => ⟨(hdepth i t hi).1, (hdepth i t hi).2.2⟩) NEST_DEPTH_MAX i hi
    (hdepth i _ (List.getElem?_eq_getElem hi)).2.1 RUNTIME_MAX_TYPES
  rw [typeValid, hwalk, spend]
  split
  · rename_i hle
    exact ⟨fun _ => hle, fun _ => rfl⟩
  · rename_i hle
    exact ⟨fun hc => (nomatch hc), fun hc => absurd hc hle⟩

end Emitted

/-- **A type of an accepted model is usable at run time** if and only if its
    descriptor and the nested ones, each counted as often as it is reached, are
    at most `RUNTIME_MAX_TYPES`. -/
theorem type_valid_iff (strtold : Strtold) (files : List File)
    (h : (runGenerator strtold files).errors = []) {abi : Abi}
    (layout : Layout abi (runGenerator strtold files).types) (hfit : SizesFit layout) (i : Nat)
    (hi : i < (runGenerator strtold files).types.length) :
    typeValid abi (descriptors layout) (some i) = true
      ↔ nestedVisits (runGenerator strtold files).types NEST_DEPTH_MAX i ≤ RUNTIME_MAX_TYPES :=
  typeValid_emitted layout (typesAccepted strtold files h) hfit hi

/-- A platform with 32-bit `int` and 64-bit `long` and pointers. -/
def lp64 : Abi where
  sizeOf
    | .int => 4
    | .long => 8
    | .double => 8
    | .bool => 1
    | .str => 8
    | .object => 1
  sizeOfNullable
    | .int => 8
    | .long => 16
    | .double => 16
    | .bool => 2
    | .str => 8
    | .object => 1
  sizeOf_pos := by
    intro kind
    cases kind <;> decide
  sizeOfNullable_pos := by
    intro kind
    cases kind <;> decide

/-- A file with a point and a line, which holds two points. -/
def lineFile : File := (lit "line.h",
  lit "$json(Point)\n\x7b\nint x;\n\x7d;\n$json(Line)\n\x7b\nPoint a;\nPoint b;\n\x7d;\n")

/-- The types of `lineFile`. -/
def lineTypes : List ParsedType :=
  [{ name := lit "Point", line := 1, fileIndex := 0, jsonOnly := true
     fields := [{ name := lit "x", cType := lit "int", kind := some .int }] },
   { name := lit "Line", line := 5, fileIndex := 0, jsonOnly := true
     fields := [{ name := lit "a", cType := lit "Point", kind := some .object },
       { name := lit "b", cType := lit "Point", kind := some .object }] }]

theorem line_model : runGenerator noNumber [lineFile]
    = { files := [{ path := lit "line.h", hasTable := true }], types := lineTypes } := by
  decide +kernel

/-- The structs of `lineFile`. -/
def lineLayout : Layout lp64 lineTypes where
  size i := if i = 0 then 4 else 8
  offset i j := if i = 0 then 0 else 4 * j
  size_pos := by decide
  inside := by decide

theorem type_valid_line : typeValid lp64 (descriptors lineLayout) (some 1) = true := by
  have hvalid := @type_valid_iff noNumber [lineFile] (congrArg _ line_model) lp64
  rw [show (runGenerator noNumber [lineFile]).types = lineTypes from congrArg _ line_model] at hvalid
  exact (hvalid lineLayout (by decide) 1 (by decide)).mpr (by decide)

/-! ## A wide type -/

/-- A `$json` type with 64 fields of one type. -/
def wideType (name inner : Bytes) : Bytes :=
  lit "$json(" ++ name ++ lit ")\n\x7b\n"
    ++ (List.range 64).flatMap (fun i => inner ++ lit " f" ++ lit (toString i) ++ lit ";\n")
    ++ lit "\x7d;\n"

/-- Types of depth three, 64 fields wide twice. -/
def wideFile : File := (lit "wide.h",
  lit "$json(A)\n\x7b\nbool x;\n\x7d;\n" ++ wideType (lit "B") (lit "A")
    ++ wideType (lit "C") (lit "B"))

def wideField (cType : Bytes) (i : Nat) : ParsedField where
  name := lit "f" ++ lit (toString i)
  cType := cType
  kind := some .object

/-- The types of `wideFile`. -/
def wideTypes : List ParsedType :=
  [{ name := lit "A", line := 1, fileIndex := 0, jsonOnly := true
     fields := [{ name := lit "x", cType := lit "bool", kind := some .bool }] },
   { name := lit "B", line := 5, fileIndex := 0, jsonOnly := true
     fields := (List.range 64).map (wideField (lit "A")) },
   { name := lit "C", line := 72, fileIndex := 0, jsonOnly := true
     fields := (List.range 64).map (wideField (lit "B")) }]

theorem wide_model : runGenerator noNumber [wideFile]
    = { files := [{ path := lit "wide.h", hasTable := true }], types := wideTypes } := by
  decide +kernel

/-- The structs of `wideFile`: every field takes as much as the type below. -/
def wideLayout : Layout lp64 wideTypes where
  size i := if i = 0 then 1 else if i = 1 then 64 else 4096
  offset i j := if i = 0 then 0 else if i = 1 then j else 64 * j
  size_pos := by decide +kernel
  inside := by decide +kernel

/-- The generator accepts `wideFile`, its sizes fit, and the descriptor of `C` is
    refused: it reaches 4161 descriptors. -/
theorem wide_type_refused :
    (runGenerator noNumber [wideFile]).errors = []
      ∧ ∃ layout : Layout lp64 (runGenerator noNumber [wideFile]).types,
        SizesFit layout ∧ typeValid lp64 (descriptors layout) (some 2) = false := by
  have herrors : (runGenerator noNumber [wideFile]).errors = [] := congrArg _ wide_model
  have htypes : (runGenerator noNumber [wideFile]).types = wideTypes := congrArg _ wide_model
  have haccepted : TypesAccepted wideTypes := htypes ▸ typesAccepted noNumber [wideFile] herrors
  have hfit : SizesFit wideLayout := by decide +kernel
  have hvisits : nestedVisits wideTypes NEST_DEPTH_MAX 2 = 4161 := by decide +kernel
  refine ⟨herrors, ?_⟩
  rw [htypes]
  refine ⟨wideLayout, hfit, Bool.eq_false_iff.mpr fun hvalid => ?_⟩
  have hle := (typeValid_emitted wideLayout haccepted hfit (show 2 < wideTypes.length from
    Nat.lt_succ_self 2)).mp hvalid
  rw [hvisits] at hle
  exact absurd hle (by decide)

end EmittedTypes

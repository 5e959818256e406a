import Mathlib.Data.List.ModifyLast
import Gargantua.GeneratorTypes

/-! # Types and their files

    A type knows the file that it was declared in, and the file is marked as a
    model file when the type is opened (`open_type`).  Only that line touches
    either of the two, so in every parsed model, errors or not, each type points
    to a model file (`runGenerator_placed`). -/

namespace ModelFiles

open RouteGenerator hiding ParsedRoute
open CString GeneratorText GeneratorSource GeneratorFields GeneratorFile GeneratorValidate
open GeneratorAuth GeneratorTypes

/-- The file at `i` is a model file. -/
def IsModel (ctx : Generator) (i : Nat) : Prop :=
  ∃ file, ctx.files[i]? = some file ∧ file.hasTable = true

theorem IsModel.lt {ctx : Generator} {i : Nat} (h : IsModel ctx i) : i < ctx.files.length := by
  obtain ⟨file, hfile, -⟩ := h
  exact (List.getElem?_eq_some_iff.mp hfile).1

/-- Every type is declared in a model file. -/
def Placed (ctx : Generator) : Prop :=
  ∀ t ∈ ctx.types, ∃ i : Nat, t.fileIndex = i ∧ IsModel ctx i

/-! ## What the lines of a file leave alone -/

/-- Which files are model files, and where the types are. -/
def tablesOf (ctx : Generator) : List Bool × List Int :=
  (ctx.files.map (·.hasTable), ctx.types.map (·.fileIndex))

theorem isModel_iff {ctx : Generator} {i : Nat} : IsModel ctx i ↔ (tablesOf ctx).1[i]? = some true := by
  rw [IsModel, tablesOf, List.getElem?_map, Option.map_eq_some_iff]

theorem placed_iff {ctx : Generator} : Placed ctx ↔
    ∀ index ∈ (tablesOf ctx).2, ∃ i : Nat, index = i ∧ (tablesOf ctx).1[i]? = some true := by
  constructor
  · intro h index hindex
    obtain ⟨t, ht, rfl⟩ := List.mem_map.mp hindex
    obtain ⟨i, hi, hmodel⟩ := h t ht
    exact ⟨i, hi, isModel_iff.mp hmodel⟩
  · intro h t ht
    obtain ⟨i, hi, hmodel⟩ := h t.fileIndex (List.mem_map_of_mem ht)
    exact ⟨i, hi, isModel_iff.mpr hmodel⟩

/-- What is declared elsewhere does not move. -/
theorem Placed.of_tables {ctx ctx' : Generator} (h : Placed ctx) (heq : tablesOf ctx' = tablesOf ctx) :
    Placed ctx' := by
  rw [placed_iff] at h ⊢
  rw [heq]
  exact h

theorem tablesOf_aside {p p' : Parser} (h : Aside p p') : tablesOf p'.ctx = tablesOf p.ctx := by
  have htypes : p'.ctx.types = p.ctx.types := congrArg TypeView.types h.view
  rw [tablesOf, tablesOf, h.tables, htypes]

theorem tablesOf_failed (p : Parser) (e : Option Bytes) : tablesOf (p.failed e).ctx = tablesOf p.ctx := by
  cases e with
  | none => rfl
  | some message => rfl

theorem tablesOf_errors (messages : List Bytes) :
    ∀ p : Parser, tablesOf (p.errors messages).ctx = tablesOf p.ctx := by
  induction messages with
  | nil =>
      intro p
      rfl
  | cons message messages ih =>
      intro p
      exact ih (p.error message)

/-! ## The lines of a type -/

/-- A change of the type that is open does not move it. -/
theorem tablesOf_onType (p : Parser) {change : ParsedType → ParsedType}
    (hchange : ∀ t, (change t).fileIndex = t.fileIndex) :
    tablesOf (Parser.onType p change).ctx = tablesOf p.ctx := by
  rw [Parser.onType]
  cases p.st.currentType with
  | none => rfl
  | some i =>
      show (_, _) = (_, _)
      rw [Prod.mk.injEq]
      refine ⟨rfl, List.ext_getElem? fun j => ?_⟩
      rw [List.getElem?_map, List.getElem?_map, List.getElem?_modify]
      cases p.ctx.types[j]? with
      | none => rfl
      | some t =>
          by_cases hij : i = j
          · simp [hij, hchange]
          · simp [hij]

theorem tablesOf_pickName {p p' : Parser} {first : Bool} {name : Bytes}
    (h : pickName p first name = .ok p') : tablesOf p'.ctx = tablesOf p.ctx := by
  rw [pickName] at h
  split_ifs at h
  · obtain rfl := Except.ok.inj h
    exact tablesOf_onType p fun t => rfl
  · obtain rfl := Except.ok.inj h
    exact tablesOf_onType p fun t => rfl

theorem tablesOf_pickLoop (n : Nat) : ∀ (first : Bool) (cursor : Bytes) (p : Parser),
    tablesOf (pickLoop n first cursor p).ctx = tablesOf p.ctx := by
  induction n with
  | zero =>
      intro first cursor p
      rfl
  | succ n ih =>
      intro first cursor p
      rw [pickLoop]
      split
      · rfl
      rename_i hname
      have hfirst := tablesOf_pickName hname
      split
      · exact (ih _ _ _).trans hfirst
      · split
        · exact hfirst
        · exact hfirst

theorem tablesOf_addField (p : Parser) (f : ParsedField) :
    tablesOf (addField p f).ctx = tablesOf p.ctx := by
  have hchecked := tablesOf_errors (checkValidation f.kind p.st.rules).2 p
  unfold addField
  dsimp only
  split
  · exact hchecked
  · refine (tablesOf_onType _ ?_).trans hchecked
    intro t
    rfl

theorem tablesOf_fieldLineReady (p : Parser) (line : Bytes) :
    tablesOf (fieldLineReady p line).1.ctx = tablesOf p.ctx := by
  rw [fieldLineReady]
  repeat' split
  all_goals rfl

theorem tablesOf_bodyLine (strtold : Strtold) (p : Parser) (line : Bytes) :
    tablesOf (parseTypeBodyLine strtold p line).ctx = tablesOf p.ctx := by
  rw [parseTypeBodyLine]
  split
  · rename_i hpick
    rw [parsePick] at hpick
    split_ifs at hpick
    · obtain rfl := Option.some.inj hpick
      exact tablesOf_pickLoop _ _ _ p
    · obtain rfl := Option.some.inj hpick
      rfl
  split
  · rename_i hrule
    rw [ ruleAnnotation] at hrule
    repeat' split at hrule
    all_goals cases hrule
    all_goals rfl
  split
  · rename_i hreferences
    rw [ parseReferencesAnnotation] at hreferences
    split_ifs at hreferences
    all_goals
      obtain rfl := Option.some.inj hreferences
      rfl
  have hready := tablesOf_fieldLineReady p line
  revert hready
  generalize fieldLineReady p line = r
  obtain ⟨q, text⟩ := r
  intro hready
  cases text with
  | none => exact hready
  | some text =>
      refine Eq.trans ?_ hready
      show tablesOf (takeField q text).ctx = _
      rw [takeField]
      split
      · exact tablesOf_failed q _
      · rfl
      · exact tablesOf_addField q _

/-! ## The line of a type -/

theorem tablesOf_open {ctx : Generator} {files : List SourceFile} {last : SourceFile}
    (hlast : ctx.files = files ++ [last]) (type : ParsedType) :
    tablesOf (({ ctx with types := ctx.types ++ [type] } : Generator).markFile
        fun file => { file with hasTable := true })
      = (files.map (·.hasTable) ++ [true], ctx.types.map (·.fileIndex) ++ [type.fileIndex]) := by
  simp [tablesOf, Generator.markFile, hlast, List.modifyLast_concat]

/-- A new type is declared in the last file, which becomes a model file. -/
theorem Placed.openType {p : Parser} (h : Placed p.ctx) (hfiles : p.ctx.files ≠ []) (line : Bytes) :
    Placed (openType p line).ctx := by
  rw [GeneratorSource.openType]
  split
  · exact h.of_tables (tablesOf_failed p _)
  split
  · exact h
  split
  · exact h
  obtain ⟨files, last, hlast⟩ := (List.eq_nil_or_concat p.ctx.files).resolve_left hfiles
  rw [List.concat_eq_append] at hlast
  have hindex : p.ctx.fileIndex = (files.length : Int) := by
    rw [Generator.fileIndex, hlast]
    simp
  rw [placed_iff, tablesOf, hlast, List.map_append] at h
  refine placed_iff.mpr ?_
  dsimp only at h ⊢
  rw [tablesOf_open hlast, hindex]
  intro index hmem
  rcases List.mem_append.mp hmem with hmem | hmem
  · obtain ⟨i, hi, hmodel⟩ := h index hmem
    refine ⟨i, hi, ?_⟩
    by_cases hold : i < files.length
    · rw [List.getElem?_append_left (by simpa using hold)] at hmodel ⊢
      exact hmodel
    · -- then it is the last file, which is one now
      have hlt := (List.getElem?_eq_some_iff.mp hmodel).1
      obtain rfl : i = files.length := by
        simp at hlt
        omega
      simp
  · exact ⟨files.length, List.mem_singleton.mp hmem, by simp⟩

/-- A line of a file that has begun. -/
structure Begun (ctx : Generator) : Prop where
  placed : Placed ctx
  files : ctx.files ≠ []

theorem Begun.of_tables {ctx ctx' : Generator} (h : Begun ctx) (heq : tablesOf ctx' = tablesOf ctx) :
    Begun ctx' where
  placed := h.placed.of_tables heq
  files := by
    intro hnil
    have hfiles := congrArg (fun tables => tables.1.length) heq
    simp only [tablesOf, hnil, List.map_nil, List.length_nil, List.length_map] at hfiles
    exact h.files (List.eq_nil_of_length_eq_zero hfiles.symm)

theorem Begun.openType {p : Parser} (h : Begun p.ctx) (line : Bytes) : Begun (openType p line).ctx where
  placed := h.placed.openType h.files line
  files := by
    rw [GeneratorSource.openType]
    split
    · exact (h.of_tables (tablesOf_failed p _)).files
    split
    · exact h.files
    split
    · exact h.files
    obtain ⟨files, last, hlast⟩ := (List.eq_nil_or_concat p.ctx.files).resolve_left h.files
    show p.ctx.files.modifyLast _ ≠ []
    rw [hlast, List.concat_eq_append, List.modifyLast_concat]
    simp

theorem Begun.topLevel {p : Parser} (h : Begun p.ctx) (line : Bytes) :
    Begun (parseTopLevelLine p line).ctx := by
  rcases aside_topLevel p line with haside | ⟨q, haside, hopen⟩
  · exact h.of_tables (tablesOf_aside haside)
  · rw [hopen]
    exact (h.of_tables (tablesOf_aside haside)).openType line

/-- One logical line. -/
theorem Begun.sourceLine {strtold : Strtold} {p : Parser} (h : Begun p.ctx) (line : Bytes) :
    Begun (parseSourceLine strtold p line).ctx := by
  rw [parseSourceLine]
  split_ifs
  · have htop := (away_passed (passed_top p line)).toAside
    exact (h.of_tables (tablesOf_aside htop)).topLevel line
  · exact h
  · exact h.of_tables (tablesOf_errors _ p)
  · exact h.of_tables (tablesOf_errors _ p)
  · exact h.of_tables (tablesOf_errors (closeErrors p line) p)
  · exact h.of_tables (tablesOf_bodyLine strtold p line)

theorem tablesOf_takeLine (r : Reader) (text : Bytes) :
    tablesOf (takeLine r text).1.parser.ctx = tablesOf r.parser.ctx := by
  unfold takeLine
  dsimp only
  repeat' split
  all_goals rfl

/-- One physical line. -/
theorem Begun.readLine {strtold : Strtold} {r : Reader} (h : Begun r.parser.ctx) (text : Bytes) :
    Begun (readLine strtold r text).parser.ctx := by
  have htake := tablesOf_takeLine r text
  rw [GeneratorFile.readLine]
  revert htake
  generalize takeLine r text = taken
  obtain ⟨r', line⟩ := taken
  intro htake
  have hr := h.of_tables htake
  cases line with
  | none => exact hr
  | some line =>
      obtain ⟨lineno, line⟩ := line
      have hstart : Begun ({ r'.parser with st := { r'.parser.st with lineno := lineno } }).ctx := hr
      exact hstart.sourceLine line

/-- A whole file. -/
theorem Begun.parseSource {strtold : Strtold} {ctx : Generator} (h : Begun ctx) (src : Bytes) :
    Begun (generatorParseSource strtold ctx src) := by
  have hlines : Begun (readLines strtold ctx src).parser.ctx :=
    Runs.after_keeps (P := fun r : Reader => Begun r.parser.ctx) (fun text _ r hr => hr.readLine text) h
  -- what is unfinished at the end of a file is only reported
  have hreport : ∀ (p : Parser) (truncated : Bool), Begun p.ctx →
      Begun (reportUnfinished p truncated).ctx :=
    fun p truncated hp => hp.of_tables (tablesOf_errors _ p)
  rw [generatorParseSource]
  split
  · exact h.of_tables rfl
  · dsimp only
    refine hreport _ _ ?_
    split
    · exact hlines.of_tables rfl
    · exact hlines

/-- A file begins, and is no model file yet. -/
theorem Placed.beginFile {ctx : Generator} (h : Placed ctx) (path : Bytes) :
    Begun (generatorBeginFile ctx path) where
  placed := by
    intro t ht
    obtain ⟨i, hi, file, hfile, htable⟩ := h t ht
    refine ⟨i, hi, file, ?_, htable⟩
    show (ctx.files ++ [_])[i]? = some file
    rw [List.getElem?_append_left (List.getElem?_eq_some_iff.mp hfile).1, hfile]
  files := by
    show ctx.files ++ [_] ≠ []
    simp

theorem parseFiles_placed (strtold : Strtold) (files : List File) :
    Placed (parseFiles strtold files) :=
  Runs.after_keeps (P := Placed)
    (fun file _ ctx h => ((h.beginFile file.1).parseSource file.2).placed) (by simp [Placed])

/-! ## Validation -/

theorem indexes_mapIdx {α : Type} (check : Nat → ParsedType → ParsedType × List α)
    (hcheck : ∀ i t, (check i t).1.fileIndex = t.fileIndex) (types : List ParsedType) :
    ((types.mapIdx check).map (·.1)).map (·.fileIndex) = types.map (·.fileIndex) := by
  apply List.ext_getElem?
  intro i
  rw [List.getElem?_map, List.getElem?_map, List.getElem?_map, List.getElem?_mapIdx]
  cases types[i]? with
  | none => rfl
  | some t => exact congrArg some (hcheck i t)

theorem resolvePick_fileIndex (types : List ParsedType) (i : Nat) (t : ParsedType) :
    (resolvePick types i t).1.fileIndex = t.fileIndex := by
  rw [resolvePick]
  repeat' split
  all_goals rfl

/-- **Every type of a model is declared in a model file.** -/
theorem runGenerator_placed (strtold : Strtold) (files : List File) :
    Placed (runGenerator strtold files) := by
  -- both passes of the validation change types where they stand
  have hpicks : ∀ ctx : Generator, tablesOf (resolvePicks ctx) = tablesOf ctx := fun ctx =>
    congrArg (Prod.mk _) (indexes_mapIdx _ (resolvePick_fileIndex ctx.types) ctx.types)
  have htypes : ∀ ctx : Generator, tablesOf (validateTypes ctx) = tablesOf ctx := fun ctx =>
    congrArg (Prod.mk _) (indexes_mapIdx _ (fun i t => rfl) ctx.types)
  have hmodel : tablesOf (runGenerator strtold files) = tablesOf (parseFiles strtold files) :=
    (htypes (resolvePicks (parseFiles strtold files))).trans (hpicks _)
  exact (parseFiles_placed strtold files).of_tables hmodel

end ModelFiles

import Mathlib.Data.List.ModifyLast
import Gargantua.GeneratorAuth

/-! # The types of an accepted model

    What may be relied on about a type once every file has been parsed without an
    error: its name and the names of its fields, the number of fields, and the
    kind and the flags of each.  The facts are collected line by line; most
    handlers do not touch the types at all, and `viewOf` says so. -/

namespace GeneratorTypes

open RouteGenerator hiding ParsedRoute
open CString GeneratorText GeneratorSource GeneratorFields GeneratorFile GeneratorValidate
open GeneratorAuth

/-! ## What a field and a type look like -/

/-- What `parse_field` and the checks behind it leave of a field. -/
structure FieldShape (f : ParsedField) : Prop where
  name : isSafeIdentifier f.name = true
  kind : f.kind = some ((fieldKindFromCType f.cType).getD .object)
  object : fieldKindFromCType f.cType = none → isSafeIdentifier f.cType = true
  nullable : f.flags.nullable = true →
    f.cType = lit "int" ∨ f.cType = lit "long" ∨ f.cType = lit "double" ∨ f.cType = lit "bool"
  id : f.flags.id = true → f.cType = lit "int" ∧ f.flags.nullable = false
  rules : ∃ rules, (checkValidation f.kind rules).2 = []
    ∧ f.rules = (checkValidation f.kind rules).1

/-- No two fields have one name, and at most one is the key. -/
def Compatible (f g : ParsedField) : Prop :=
  f.name ≠ g.name ∧ ¬ (f.flags.id = true ∧ g.flags.id = true)

/-- What a type looks like while it is parsed: picked names, then fields. -/
structure TypeShape (t : ParsedType) : Prop where
  name : isSafeIdentifier t.name = true
  length : t.fields.length ≤ GENERATOR_MAX_FIELDS
  distinct : t.fields.Pairwise Compatible
  picked : ∀ f ∈ t.fields.take t.pickCount, isSafeIdentifier f.name = true ∧ f = { name := f.name }
  own : ∀ f ∈ t.fields.drop t.pickCount, FieldShape f
  pickCount : t.pickCount ≤ t.fields.length
  table : t.jsonOnly = false → t.pickCount = 0

/-! ## Handlers that do not touch the types -/

/-- The part of the parser that types depend on. -/
structure TypeView where
  types : List ParsedType
  currentType : Option Nat
  inStruct : Bool
  pending : FieldFlags

def viewOf (p : Parser) : TypeView := ⟨p.ctx.types, p.st.currentType, p.st.inStruct, p.st.pending⟩

theorem viewOf_failed (p : Parser) (e : Option Bytes) : viewOf (p.failed e) = viewOf p := by
  cases e with
  | none => rfl
  | some message => rfl

/-- Nothing is changed that a type is made of, and no file gets a type. -/
structure Aside (p p' : Parser) : Prop where
  view : viewOf p' = viewOf p
  tables : p'.ctx.files.map (·.hasTable) = p.ctx.files.map (·.hasTable)

/-- No more is anything of a route, or of what is pending for one. -/
structure Away (p p' : Parser) : Prop extends Aside p p' where
  routes : p'.ctx.routes = p.ctx.routes
  routeUrl : p'.st.routeUrl = p.st.routeUrl
  pendingRole : p'.st.pendingRole = p.st.pendingRole
  rules : p'.st.rules = p.st.rules

theorem Aside.refl (p : Parser) : Aside p p := ⟨rfl, rfl⟩

theorem Aside.trans {p q r : Parser} (h : Aside p q) (h' : Aside q r) : Aside p r :=
  ⟨h'.view.trans h.view, h'.tables.trans h.tables⟩

theorem Away.refl (p : Parser) : Away p p := ⟨Aside.refl p, rfl, rfl, rfl, rfl⟩

theorem away_failed (p : Parser) (e : Option Bytes) : Away p (p.failed e) := by
  cases e with
  | none => exact Away.refl p
  | some message => exact ⟨⟨rfl, rfl⟩, rfl, rfl, rfl, rfl⟩

/-- A mark on the last file that is none for a type. -/
theorem tables_mark (ctx : Generator) {mark : SourceFile → SourceFile}
    (hmark : ∀ file, (mark file).hasTable = file.hasTable) :
    (ctx.markFile mark).files.map (·.hasTable) = ctx.files.map (·.hasTable) := by
  rw [Generator.markFile]
  rcases List.eq_nil_or_concat ctx.files with hnil | ⟨files, file, hlast⟩
  · rw [hnil]
    rfl
  · rw [hlast, List.concat_eq_append, List.modifyLast_concat]
    simp [hmark]

theorem away_passed {p p' : Parser} (h : Passed p p') : Away p p' where
  view := by rw [viewOf, viewOf, h.ctx, h.st]
  tables := congrArg (fun ctx : Generator => ctx.files.map (·.hasTable)) h.ctx
  routes := congrArg (·.routes) h.ctx
  routeUrl := congrArg (·.routeUrl) h.st
  pendingRole := congrArg (·.pendingRole) h.st
  rules := congrArg (·.rules) h.st

theorem away_transactional {p p' : Parser} {line : Bytes}
    (h : parseTransactionalAnnotation p line = some p') : Away p p' := by
  rw [ parseTransactionalAnnotation] at h
  split_ifs at h
  all_goals
    obtain rfl := Option.some.inj h
    exact ⟨⟨rfl, rfl⟩, rfl, rfl, rfl, rfl⟩

theorem aside_auth {p p' : Parser} {line : Bytes}
    (h : parseAuthAnnotation p line = some p') : Aside p p' := by
  rw [ parseAuthAnnotation] at h
  split at h
  · cases h
  · obtain rfl := Option.some.inj h
    exact (away_failed p _).toAside
  · rename_i a _
    obtain rfl := Option.some.inj h
    cases a <;> exact ⟨rfl, rfl⟩

theorem away_produces {p p' : Parser} {line : Bytes}
    (h : parseProducesAnnotation p line = some p') : Away p p' := by
  rw [ parseProducesAnnotation] at h
  repeat' split at h
  all_goals cases h
  all_goals first | exact ⟨⟨rfl, rfl⟩, rfl, rfl, rfl, rfl⟩ | exact away_failed p _

theorem away_repeat {p p' : Parser} {line : Bytes}
    (h : parseRepeatAnnotation p line = some p') : Away p p' := by
  rw [ parseRepeatAnnotation] at h
  repeat' split at h
  all_goals cases h
  all_goals first | exact ⟨⟨rfl, rfl⟩, rfl, rfl, rfl, rfl⟩ | exact away_failed p _

theorem away_store {p p' : Parser} {line : Bytes}
    (h : parseStoreAnnotation p line = some p') : Away p p' := by
  rw [ parseStoreAnnotation] at h
  repeat' split at h
  all_goals cases h
  all_goals exact ⟨⟨rfl, rfl⟩, rfl, rfl, rfl, rfl⟩

theorem aside_armRoute {p p' : Parser} {line : Bytes}
    (h : parseRouteAnnotation p line = some p') : Aside p p' := by
  rw [ parseRouteAnnotation] at h
  repeat' split at h
  all_goals cases h
  all_goals first | exact ⟨rfl, rfl⟩ | exact (away_failed p _).toAside

theorem away_removed {p p' : Parser} {line : Bytes}
    (h : reportRemovedAnnotation p line = some p') : Away p p' := by
  rw [ reportRemovedAnnotation] at h
  split_ifs at h
  all_goals
    obtain rfl := Option.some.inj h
    exact ⟨⟨rfl, rfl⟩, rfl, rfl, rfl, rfl⟩

theorem aside_route (p : Parser) (line : Bytes) : Aside p (parseRoute p line) := by
  unfold parseRoute
  dsimp only
  split
  · exact ⟨rfl, rfl⟩
  split
  · have hdisarm : Aside p { p with st := { p.st with routeArmed := false } } := ⟨rfl, rfl⟩
    exact hdisarm.trans (away_failed _ _).toAside
  · unfold takePendingAnnotations
    dsimp only
    split
    · exact ⟨rfl, tables_mark _ fun file => rfl⟩
    · exact ⟨rfl, tables_mark _ fun file => rfl⟩

theorem away_task (p : Parser) (line : Bytes) : Away p (parseTask p line) := by
  have hfailed : ∀ e message, Away p
      ((Parser.failed { p with st := { p.st with taskArmed := false } } e).error message) := by
    intro e message
    cases e <;> exact ⟨⟨rfl, rfl⟩, rfl, rfl, rfl, rfl⟩
  unfold parseTask
  dsimp only
  repeat' split
  all_goals first
    | exact ⟨⟨rfl, rfl⟩, rfl, rfl, rfl, rfl⟩
    | exact hfailed _ _
    | exact ⟨⟨rfl, tables_mark _ fun file => rfl⟩, rfl, rfl, rfl, rfl⟩

theorem away_service (p : Parser) (line : Bytes) : Away p (parseService p line) := by
  have htake : Away p (takeService p line) := by
    rw [takeService]
    repeat' split
    all_goals first
      | exact ⟨⟨rfl, rfl⟩, rfl, rfl, rfl, rfl⟩
      | exact away_failed _ _
      | exact ⟨⟨rfl, tables_mark _ fun file => rfl⟩, rfl, rfl, rfl, rfl⟩
  exact ⟨⟨htake.view, htake.tables⟩, htake.routes, htake.routeUrl, htake.pendingRole, htake.rules⟩

theorem aside_dropDanglingAuth (p : Parser) : Aside p (dropDanglingAuth p) := by
  unfold dropDanglingAuth dropProduces dropSecurity
  dsimp only
  repeat' split
  all_goals exact ⟨rfl, rfl⟩

/-- At the top level only the line of a new type touches the types. -/
theorem aside_topLevel (p : Parser) (line : Bytes) :
    Aside p (parseTopLevelLine p line)
      ∨ ∃ q, Aside p q ∧ parseTopLevelLine p line = openType q line := by
  rw [parseTopLevelLine]
  split
  · exact Or.inl (Aside.refl p)
  split
  · exact Or.inl (away_transactional ‹_›).toAside
  split
  · exact Or.inl (aside_auth ‹_›)
  split
  · exact Or.inl (away_produces ‹_›).toAside
  split
  · exact Or.inl (aside_route p line)
  split
  · exact Or.inl (away_store ‹_›).toAside
  split
  · exact Or.inl (away_repeat ‹_›).toAside
  split
  · exact Or.inl (away_task p line).toAside
  split
  · exact Or.inl (aside_armRoute ‹_›)
  have hdrop := aside_dropDanglingAuth p
  generalize dropDanglingAuth p = q at hdrop ⊢
  rw [parseDeclaration]
  split
  · exact Or.inl (hdrop.trans (away_service q line).toAside)
  split
  · exact Or.inl (hdrop.trans (away_removed ‹_›).toAside)
  split
  · exact Or.inr ⟨q, hdrop, rfl⟩
  · exact Or.inl hdrop

/-! ## The type that is open -/

/-- What holds of the types between two lines.  The type that is open is the
    last one; every other type has a field. -/
structure TypesOk (v : TypeView) : Prop where
  names : (v.types.map (·.name)).Nodup
  length : v.types.length ≤ GENERATOR_MAX_TYPES
  shape : ∀ t ∈ v.types, TypeShape t
  current : ∀ i, v.currentType = some i → i < v.types.length
  inside : v.inStruct = false → v.currentType = none
  closed : ∀ i t, v.types[i]? = some t → v.currentType ≠ some i → t.fields ≠ []
  nullable : v.pending.nullable = false

theorem openType_onType (p : Parser) (change : ParsedType → ParsedType) :
    Parser.openType (Parser.onType p change) = (Parser.openType p).map change := by
  rw [Parser.openType, Parser.onType, Parser.openType]
  cases hcurrent : p.st.currentType with
  | none => simp [hcurrent]
  | some i => simp [hcurrent, List.getElem?_modify_eq]

theorem openType_mem {p : Parser} {t : ParsedType} (h : Parser.openType p = some t) :
    ∃ i, p.st.currentType = some i ∧ p.ctx.types[i]? = some t := by
  rw [Parser.openType] at h
  exact Option.bind_eq_some_iff.mp h

/-- A change of the type that is open, which keeps its name. -/
theorem TypesOk.onType {p : Parser} (h : TypesOk (viewOf p)) {change : ParsedType → ParsedType}
    (hname : ∀ t, (change t).name = t.name)
    (hshape : ∀ t, Parser.openType p = some t → TypeShape (change t)) :
    TypesOk (viewOf (Parser.onType p change)) := by
  rw [Parser.onType]
  cases hcurrent : p.st.currentType with
  | none => exact h
  | some i =>
      have hnames : (p.ctx.types.modify i change).map (·.name) = p.ctx.types.map (·.name) := by
        apply List.ext_getElem?
        intro j
        rw [List.getElem?_map, List.getElem?_map, List.getElem?_modify]
        cases p.ctx.types[j]? with
        | none => rfl
        | some t =>
            by_cases hij : i = j
            · simp [hij, hname]
            · simp [hij]
      have hother : ∀ j t, (p.ctx.types.modify i change)[j]? = some t →
          (i ≠ j ∧ p.ctx.types[j]? = some t)
            ∨ (i = j ∧ ∃ s, p.ctx.types[j]? = some s ∧ t = change s) := by
        intro j t hj
        rw [List.getElem?_modify] at hj
        obtain ⟨s, hs, rfl⟩ := Option.map_eq_some_iff.mp hj
        by_cases hij : i = j
        · exact Or.inr ⟨hij, s, hs, by simp [hij]⟩
        · exact Or.inl ⟨hij, by simp [hij, hs]⟩
      refine ⟨hnames ▸ h.names, (List.length_modify ..).trans_le h.length, ?_, ?_, h.inside, ?_,
        h.nullable⟩
      · intro t ht
        obtain ⟨j, hj⟩ := List.mem_iff_getElem?.mp ht
        rcases hother j t hj with ⟨-, hs⟩ | ⟨rfl, s, hs, rfl⟩
        · exact h.shape t (List.mem_of_getElem? hs)
        · exact hshape s (by rw [Parser.openType, hcurrent]; exact hs)
      · intro j hj
        exact (h.current j hj).trans_eq (List.length_modify ..).symm
      · intro j t hj hne
        rcases hother j t hj with ⟨-, hs⟩ | ⟨rfl, -⟩
        · exact h.closed j t hs hne
        · exact absurd hcurrent hne

theorem parseTableName_safe {line name : Bytes} (h : parseTableName line = .ok name) :
    isSafeIdentifier name = true := by
  rw [parseTableName] at h
  split at h
  · exact nomatch h
  split at h
  · exact nomatch h
  split at h
  · split at h
    · exact nomatch h
    dsimp only at h
    split at h
    · split at h
      · exact nomatch h
      · rename_i hs
        exact Except.ok.inj h ▸ Bool.not_eq_false _ ▸ hs
    · split at h
      · exact nomatch h
      · rename_i hs
        exact Except.ok.inj h ▸ Bool.not_eq_false _ ▸ hs
  · exact nomatch h

/-- The line of a new type. -/
theorem TypesOk.openType {p : Parser} (h : TypesOk (viewOf p)) (hin : p.st.inStruct = false)
    (line : Bytes) : TypesOk (viewOf (GeneratorSource.openType p line)) := by
  have hnone : p.st.currentType = none := h.inside hin
  rw [GeneratorSource.openType]
  split
  · exact viewOf_failed p _ ▸ h
  rename_i name hname
  split
  · exact h
  rename_i hfresh
  split
  · exact h
  rename_i hroom
  refine ⟨?_, ?_, ?_, ?_, fun hc => (by cases hc), ?_, rfl⟩
  · have hlast : ((p.ctx.types.map (·.name)) ++ [name]).Nodup :=
      List.nodup_append.mpr ⟨h.names, List.pairwise_singleton _ _, fun a ha b hb hab =>
        hfresh (List.mem_singleton.mp hb ▸ hab ▸ ha)⟩
    simpa [viewOf, Generator.markFile] using hlast
  · show (p.ctx.types ++ [_]).length ≤ _
    rw [List.length_append]
    exact Nat.lt_of_not_le hroom
  · intro t ht
    rcases List.mem_append.mp ht with ht | ht
    · exact h.shape t ht
    · rw [List.mem_singleton.mp ht]
      exact ⟨parseTableName_safe hname, Nat.zero_le _, List.Pairwise.nil, fun f hf => (by cases hf),
        fun f hf => (by cases hf), Nat.le_refl _, fun _ => rfl⟩
  · intro i hi
    obtain rfl := Option.some.inj hi
    show p.ctx.types.length < (p.ctx.types ++ [_]).length
    rw [List.length_append]
    exact Nat.lt_succ_self _
  · intro i t hi hne
    have hi' : (p.ctx.types ++ [_])[i]? = some t := hi
    rw [List.getElem?_append] at hi'
    split at hi'
    · exact h.closed i t hi' (by simp [viewOf, hnone])
    · rename_i hge
      have hlt := (List.getElem?_eq_some_iff.mp hi').1
      exact absurd (congrArg some (by simp at hlt; omega : p.ctx.types.length = i)) hne

/-! ## `$pick` -/

/-- The type that is open holds picked names only, and has room for `n` more. -/
def Picking (p : Parser) (n : Nat) : Prop :=
  ∀ t, Parser.openType p = some t →
    t.jsonOnly = true ∧ t.pickCount = t.fields.length
      ∧ t.fields.length + n ≤ GENERATOR_MAX_FIELDS

/-- One name of `$pick`; the first is that of the table. -/
theorem pickName_ok {p p' : Parser} {first : Bool} {name : Bytes} {n : Nat}
    (h : TypesOk (viewOf p)) (hpicking : Picking p (if first then n else n + 1))
    (hname : pickName p first name = .ok p') : TypesOk (viewOf p') ∧ Picking p' n := by
  rw [pickName] at hname
  split at hname
  · cases hname
  rename_i hsafe
  split at hname
  · -- the first name is the type that the fields come from
    rename_i hfirst
    obtain rfl := Except.ok.inj hname
    rw [if_pos hfirst] at hpicking
    refine ⟨h.onType (fun t => rfl) fun t ht => ?_, fun t ht => ?_⟩
    · obtain ⟨i, -, hi⟩ := openType_mem ht
      have hshape := h.shape t (List.mem_of_getElem? hi)
      exact ⟨hshape.name, hshape.length, hshape.distinct, hshape.picked, hshape.own,
        hshape.pickCount, hshape.table⟩
    · rw [openType_onType] at ht
      obtain ⟨s, hs, rfl⟩ := Option.map_eq_some_iff.mp ht
      exact hpicking s hs
  rename_i hfirst
  split at hname
  · cases hname
  rename_i hfresh
  obtain rfl := Except.ok.inj hname
  rw [if_neg hfirst] at hpicking
  refine ⟨h.onType (fun t => rfl) fun t ht => ?_, fun t ht => ?_⟩
  · obtain ⟨i, -, hi⟩ := openType_mem ht
    have hshape := h.shape t (List.mem_of_getElem? hi)
    obtain ⟨hjson, hcount, hroom⟩ := hpicking t ht
    have hsafe : isSafeIdentifier name = true := by
      have := not_or.mp hsafe
      simpa using this.2
    -- until now every field of the type is a picked one
    have hpicked : ∀ f ∈ t.fields, isSafeIdentifier f.name = true ∧ f = { name := f.name } := by
      intro f hf
      exact hshape.picked f (by rw [hcount, List.take_length]; exact hf)
    have hcount' : t.pickCount + 1 = (t.fields ++ [({ name := name } : ParsedField)]).length := by
      rw [hcount, List.length_append]
      rfl
    refine ⟨hshape.name, ?_, ?_, ?_, ?_, hcount'.le, fun hc => ?_⟩
    · show (t.fields ++ [_]).length ≤ _
      rw [List.length_append]
      show t.fields.length + 1 ≤ _
      omega
    · refine List.pairwise_append.mpr ⟨hshape.distinct, List.pairwise_singleton _ _, ?_⟩
      intro f hf g hg
      rw [List.mem_singleton.mp hg]
      refine ⟨fun hfg => hfresh ?_, fun hc => (by cases hc.2)⟩
      rw [openFields, ht]
      exact List.mem_map.mpr ⟨f, hf, hfg⟩
    · intro f hf
      change f ∈ (t.fields ++ [({ name := name } : ParsedField)]).take (t.pickCount + 1) at hf
      rw [hcount', List.take_length] at hf
      rcases List.mem_append.mp hf with hf | hf
      · exact hpicked f hf
      · rw [List.mem_singleton.mp hf]
        exact ⟨hsafe, rfl⟩
    · intro f hf
      change f ∈ (t.fields ++ [({ name := name } : ParsedField)]).drop (t.pickCount + 1) at hf
      rw [hcount', List.drop_length] at hf
      cases hf
    · exact absurd (hjson.symm.trans hc) (by simp)
  · rw [openType_onType] at ht
    obtain ⟨s, hs, rfl⟩ := Option.map_eq_some_iff.mp ht
    obtain ⟨hjson, hcount, hroom⟩ := hpicking s hs
    refine ⟨hjson, ?_, ?_⟩
    · show s.pickCount + 1 = (s.fields ++ [_]).length
      rw [hcount, List.length_append]
      rfl
    · show (s.fields ++ [_]).length + n ≤ _
      rw [List.length_append]
      show s.fields.length + 1 + n ≤ _
      omega

/-- The names of `$pick`, as long as none is refused. -/
theorem pickLoop_ok (n : Nat) :
    ∀ {first : Bool} {cursor : Bytes} {p : Parser}, TypesOk (viewOf p) →
      Picking p (if first then n - 1 else n) → (pickLoop n first cursor p).ctx.errors = [] →
      TypesOk (viewOf (pickLoop n first cursor p)) := by
  induction n with
  | zero => exact fun _ _ he => absurd he (error_ne_nil _ _)
  | succ n ih =>
      intro first cursor p h hpicking he
      rw [pickLoop] at he ⊢
      split at he
      · exact absurd he (error_ne_nil _ _)
      rename_i p' hname
      have hnext := pickName_ok h hpicking hname
      split at he
      · exact ih hnext.1 hnext.2 he
      · split at he
        · exact absurd he (error_ne_nil _ _)
        · rename_i hsome
          rw [if_neg hsome]
          exact hnext.1

theorem parsePick_ok {p p' : Parser} {line : Bytes} (h : TypesOk (viewOf p))
    (hp : parsePick p line = some p') (he : p'.ctx.errors = []) : TypesOk (viewOf p') := by
  rw [parsePick] at hp
  split at hp
  · cases hp
  split at hp
  · rename_i hready
    obtain rfl := Option.some.inj hp
    refine pickLoop_ok _ h (fun t ht => ?_) he
    rw [pickReady, ht] at hready
    obtain ⟨hjson, hfields, -⟩ := of_decide_eq_true hready
    obtain ⟨i, -, hi⟩ := openType_mem ht
    have hcount := (h.shape t (List.mem_of_getElem? hi)).pickCount
    rw [hfields] at hcount ⊢
    exact ⟨hjson, Nat.le_zero.mp hcount, Nat.le_refl _⟩
  · obtain rfl := Option.some.inj hp
    exact absurd he (error_ne_nil _ _)

/-! ## Fields -/

theorem fieldFlag_nullable {word : Bytes} {flags : FieldFlags}
    (h : fieldFlagFromWord word = some flags) : flags.nullable = false := by
  rw [fieldFlagFromWord] at h
  split_ifs at h <;> obtain rfl := Option.some.inj h <;> rfl

theorem union_nullable {a b : FieldFlags} (ha : a.nullable = false) (hb : b.nullable = false) :
    (a.union b).nullable = false := by
  show (a.nullable || b.nullable) = false
  rw [ha, hb]
  rfl

/-- No annotation makes a field nullable: its type does. -/
theorem leadingFlags_nullable (words : List Bytes) : (leadingFlags words).1.nullable = false := by
  induction words with
  | nil => rfl
  | cons word words ih =>
      rw [leadingFlags]
      cases hflag : fieldFlagFromWord word with
      | none => rfl
      | some flag => exact union_nullable (fieldFlag_nullable hflag) ih

theorem allFlags_nullable (words : List Bytes) :
    ∀ {flags : FieldFlags}, allFlags words = some flags → flags.nullable = false := by
  induction words with
  | nil =>
      intro flags h
      obtain rfl := Option.some.inj h
      rfl
  | cons word words ih =>
      intro flags h
      rw [allFlags] at h
      split at h
      · rename_i flag flags' hflag hflags
        obtain rfl := Option.some.inj h
        exact union_nullable (fieldFlag_nullable hflag) (ih hflags)
      · cases h

theorem lineOnlyAnnotations_nullable {line : Bytes} {flags : FieldFlags}
    (h : lineOnlyAnnotations line = some flags) : flags.nullable = false := by
  rw [lineOnlyAnnotations] at h
  split at h
  · cases h
  · exact allFlags_nullable _ h

/-- What a field line says, before the checks that need the type. -/
structure FieldRead (f : ParsedField) : Prop where
  name : isSafeIdentifier f.name = true
  kind : f.kind = some ((fieldKindFromCType f.cType).getD .object)
  object : fieldKindFromCType f.cType = none → isSafeIdentifier f.cType = true
  nullable : f.flags.nullable = true →
    f.cType = lit "int" ∨ f.cType = lit "long" ∨ f.cType = lit "double" ∨ f.cType = lit "bool"

theorem fieldOf_ok {flags : FieldFlags} {type name : Bytes} {f : ParsedField}
    (h : fieldOf flags type name = .ok f) :
    isSafeIdentifier name = true ∧ (fieldKindFromCType type = none → isSafeIdentifier type = true)
      ∧ f = { name := name, cType := type, flags := flags
              kind := some ((fieldKindFromCType type).getD .object) } := by
  have hname : ∀ kind, (if isSafeIdentifier name = false then
        report (lit "field '" ++ name ++ lit "' must be a plain, safe C identifier")
      else .ok ({ name := name, cType := type, kind := some kind, flags := flags } : ParsedField))
        = .ok f → isSafeIdentifier name = true
          ∧ f = { name := name, cType := type, kind := some kind, flags := flags } := by
    intro kind hk
    split at hk
    · exact nomatch hk
    · rename_i hs
      exact ⟨by simpa using hs, (Except.ok.inj hk).symm⟩
  unfold fieldOf at h
  cases hkind : fieldKindFromCType type with
  | some kind =>
      simp only [hkind] at h
      obtain ⟨hsafe, hf⟩ := hname kind h
      exact ⟨hsafe, fun hc => (nomatch hc), hf⟩
  | none =>
      by_cases htype : isSafeIdentifier type = false
      · simp [hkind, htype, report] at h
      · simp only [hkind, htype, Bool.true_eq_false, if_false] at h
        obtain ⟨hsafe, hf⟩ := hname .object h
        exact ⟨hsafe, fun _ => Bool.not_eq_false _ ▸ htype, hf⟩

theorem map_some_ok {x : Checked ParsedField} {f : ParsedField}
    (h : x.map some = .ok (some f)) : x = .ok f := by
  cases x with
  | error e => exact nomatch h
  | ok g => rw [Option.some.inj (Except.ok.inj h)]

theorem parseField_ok {text : Bytes} {f : ParsedField} (h : parseField text = .ok (some f)) :
    FieldRead f := by
  rw [parseField] at h
  split at h
  · exact nomatch h
  have hflags := leadingFlags_nullable (lineSplitWords text GENERATOR_MAX_TOKENS)
  split at h
  · rename_i flags type name hleading
    rw [hleading] at hflags
    split at h
    · exact nomatch h
    split at h
    · split at h
      · exact nomatch h
      rename_i inner hinner
      split at h
      · exact nomatch h
      · rename_i hfour
        obtain ⟨hname, htype, rfl⟩ := fieldOf_ok (map_some_ok h)
        refine ⟨hname, rfl, htype, fun _ => ?_⟩
        by_contra hc
        simp only [not_or] at hc
        exact hfour hc
    · obtain ⟨hname, htype, rfl⟩ := fieldOf_ok (map_some_ok h)
      exact ⟨hname, rfl, htype, fun hc => absurd (hflags.symm.trans hc) (by simp)⟩
  · exact nomatch h

theorem fieldConflict_none {f : ParsedField} (fields : List ParsedField)
    (h : fieldConflict f fields = none) : ∀ g ∈ fields, Compatible g f := by
  induction fields with
  | nil => exact fun g hg => nomatch hg
  | cons prev fields ih =>
      rw [fieldConflict] at h
      split at h
      · exact nomatch h
      rename_i hname
      split at h
      · exact nomatch h
      rename_i hid
      intro g hg
      rcases List.mem_cons.mp hg with rfl | hg
      · exact ⟨hname, hid⟩
      · exact ih h g hg

/-- The line of a field: an annotation is kept for the next field, or there is
    room for a field. -/
theorem fieldLineReady_spec (p : Parser) (line : Bytes)
    (he : (fieldLineReady p line).1.ctx.errors = []) :
    ((fieldLineReady p line).2 = none → ∃ flags : FieldFlags, flags.nullable = false
        ∧ (fieldLineReady p line).1
          = { p with st := { p.st with pending := p.st.pending.union flags } })
      ∧ ∀ text, (fieldLineReady p line).2 = some text → (fieldLineReady p line).1 = p
        ∧ ∀ t, Parser.openType p = some t → t.fields.length < GENERATOR_MAX_FIELDS := by
  rw [fieldLineReady] at he ⊢
  split at he
  · rename_i hend
    rw [if_pos hend]
    split at he
    · rename_i flags hflags
      exact ⟨fun _ => ⟨flags, lineOnlyAnnotations_nullable hflags, rfl⟩, fun text hc => (by cases hc)⟩
    · exact absurd he (error_ne_nil _ _)
  · rename_i hend
    rw [if_neg hend]
    split at he
    · exact absurd he (error_ne_nil _ _)
    · rename_i type htype
      dsimp only at he ⊢
      split at he
      · exact absurd he (error_ne_nil _ _)
      · rename_i hroom
        rw [if_neg hroom]
        refine ⟨fun hc => (by cases hc), fun text _ => ⟨rfl, fun t ht => ?_⟩⟩
        obtain rfl := Option.some.inj (htype.symm.trans ht)
        exact Nat.lt_of_not_le hroom

/-- The field as it goes into its type. -/
theorem completeField_shape {p : Parser} {f : ParsedField} (hf : FieldRead f)
    (hpending : p.st.pending.nullable = false)
    (hrules : (checkValidation f.kind p.st.rules).2 = [])
    (hid : (completeField p.st f).flags.id = true →
      f.cType = lit "int" ∧ (completeField p.st f).flags.nullable = false) :
    FieldShape (completeField p.st f) where
  name := hf.name
  kind := hf.kind
  object := hf.object
  nullable := by
    intro hn
    refine hf.nullable ?_
    change (f.flags.nullable || p.st.pending.nullable) = true at hn
    rwa [hpending, Bool.or_false] at hn
  id := hid
  rules := ⟨p.st.rules, hrules, rfl⟩

theorem fieldConflicts_none {fields : List ParsedField} {f : ParsedField}
    (hlength : fields.length ≤ GENERATOR_MAX_FIELDS) (h : fieldConflicts fields f = none) :
    (f.flags.id = true → f.cType = lit "int" ∧ f.flags.nullable = false)
      ∧ ∀ g ∈ fields, Compatible g f := by
  rw [fieldConflicts] at h
  split at h
  · exact nomatch h
  rename_i hid
  rw [List.take_of_length_le hlength] at h
  refine ⟨fun hf => ?_, fieldConflict_none fields h⟩
  have hboth := not_or.mp fun hc => hid ⟨hf, hc⟩
  exact ⟨not_not.mp hboth.1, Bool.not_eq_true _ ▸ hboth.2⟩

/-- A field goes behind the others. -/
theorem addField_ok {p : Parser} {f : ParsedField} (h : TypesOk (viewOf p)) (hf : FieldRead f)
    (hroom : ∀ t, Parser.openType p = some t → t.fields.length < GENERATOR_MAX_FIELDS)
    (he : (addField p f).ctx.errors = []) : TypesOk (viewOf (addField p f)) := by
  have hrules : (checkValidation f.kind p.st.rules).2 = [] := by
    by_contra hc
    refine errors_ne_nil p hc ?_
    rw [addField] at he
    split at he
    · exact absurd he (error_ne_nil _ _)
    · have hp := (keeps_onType _ _).no_errors he
      exact hp
  rw [addField, hrules] at he ⊢
  split at he
  · exact absurd he (error_ne_nil _ _)
  rename_i hconflict
  have hp : TypesOk (viewOf { p with st := { p.st with rules := {}, pendingReferences := [] } }) := h
  refine hp.onType (fun t => rfl) fun t ht => ?_
  have ht' : Parser.openType p = some t := ht
  obtain ⟨i, -, hi⟩ := openType_mem ht'
  have hshape := h.shape t (List.mem_of_getElem? hi)
  rw [openFields, ht'] at hconflict
  obtain ⟨hid, hcompatible⟩ := fieldConflicts_none hshape.length hconflict
  have hfield := completeField_shape hf h.nullable hrules hid
  refine ⟨hshape.name, ?_, ?_, ?_, ?_, ?_, hshape.table⟩
  · show (t.fields ++ [_]).length ≤ _
    rw [List.length_append]
    exact hroom t ht'
  · refine List.pairwise_append.mpr ⟨hshape.distinct, List.pairwise_singleton _ _, ?_⟩
    intro g hg g' hg'
    rw [List.mem_singleton.mp hg']
    exact hcompatible g hg
  · intro g hg
    refine hshape.picked g ?_
    change g ∈ (t.fields ++ [_]).take t.pickCount at hg
    rwa [List.take_append_of_le_length hshape.pickCount] at hg
  · intro g hg
    change g ∈ (t.fields ++ [_]).drop t.pickCount at hg
    rw [List.drop_append_of_le_length hshape.pickCount] at hg
    rcases List.mem_append.mp hg with hg | hg
    · exact hshape.own g hg
    · rw [List.mem_singleton.mp hg]
      exact hfield
  · exact hshape.pickCount.trans (by rw [List.length_append]; exact Nat.le_add_right _ _)

/-! ## Lines and files -/

theorem viewOf_rule {strtold : Strtold} {p p' : Parser} {line : Bytes}
    (h : ruleAnnotation strtold p line = some p') : viewOf p' = viewOf p := by
  rw [ ruleAnnotation] at h
  repeat' split at h
  all_goals cases h
  all_goals rfl

theorem viewOf_references {p p' : Parser} {line : Bytes}
    (h : parseReferencesAnnotation p line = some p') : viewOf p' = viewOf p := by
  rw [ parseReferencesAnnotation] at h
  split_ifs at h <;> obtain rfl := Option.some.inj h <;> rfl

/-- What is pending may be dropped or get another annotation. -/
theorem TypesOk.pending {p : Parser} (h : TypesOk (viewOf p)) {flags : FieldFlags}
    (hflags : flags.nullable = false) :
    TypesOk (viewOf { p with st := { p.st with pending := flags } }) :=
  ⟨h.names, h.length, h.shape, h.current, h.inside, h.closed, hflags⟩

theorem bodyLine_ok {strtold : Strtold} {p : Parser} {line : Bytes} (h : TypesOk (viewOf p))
    (he : (parseTypeBodyLine strtold p line).ctx.errors = []) :
    TypesOk (viewOf (parseTypeBodyLine strtold p line)) := by
  rw [parseTypeBodyLine] at he ⊢
  split at he
  · exact parsePick_ok h ‹_› he
  split at he
  · exact viewOf_rule ‹_› ▸ h
  split at he
  · exact viewOf_references ‹_› ▸ h
  have hready := fieldLineReady_spec p line
  revert hready he
  generalize fieldLineReady p line = r
  obtain ⟨q, text⟩ := r
  intro he hready
  cases text with
  | none =>
      obtain ⟨flags, hflags, hq⟩ := (hready he).1 rfl
      obtain rfl : q = _ := hq
      exact h.pending (union_nullable h.nullable hflags)
  | some text =>
      have hq : q.ctx.errors = [] := (keeps_takeField q text).no_errors he
      obtain ⟨rfl, hroom⟩ := (hready hq).2 text rfl
      refine TypesOk.pending ?_ rfl
      change (takeField q text).ctx.errors = [] at he
      show TypesOk (viewOf (takeField q text))
      rw [takeField] at he ⊢
      split at he
      · exact viewOf_failed q _ ▸ h
      · exact h
      · exact addField_ok h (parseField_ok ‹_›) hroom he

/-- A type is closed with a field in it. -/
theorem close_ok {p : Parser} {line : Bytes} (h : TypesOk (viewOf p))
    (he : (handleClose p line).ctx.errors = []) : TypesOk (viewOf (handleClose p line)) := by
  have hnone : closeErrors p line = [] := by
    by_contra hc
    exact errors_ne_nil p hc he
  rw [handleClose, hnone]
  refine ⟨h.names, h.length, h.shape, fun i hi => (nomatch hi), fun _ => rfl, ?_, rfl⟩
  intro i t hi _
  by_cases hcurrent : p.st.currentType = some i
  · have hopen : Parser.openType p = some t := by
      rw [Parser.openType, hcurrent]
      exact hi
    rw [closeErrors, hopen] at hnone
    have := (List.append_eq_nil_iff.mp hnone).2
    by_contra hc
    simp [hc] at this
  · exact h.closed i t hi hcurrent

/-- One logical line. -/
theorem sourceLine_ok {strtold : Strtold} {p : Parser} {line : Bytes} (h : TypesOk (viewOf p))
    (he : (parseSourceLine strtold p line).ctx.errors = []) :
    TypesOk (viewOf (parseSourceLine strtold p line)) := by
  rw [parseSourceLine] at he ⊢
  split at he
  · rename_i hin
    rw [if_pos hin]
    have htop := (away_passed (passed_top p line)).view
    generalize guardTransaction (collectFunction p line) line = q at he htop ⊢
    rcases aside_topLevel q line with hq | ⟨q', hq', hopen⟩
    · rw [hq.view, htop]
      exact h
    · rw [hopen]
      have hq : viewOf q' = viewOf p := hq'.view.trans htop
      exact TypesOk.openType (hq ▸ h) ((congrArg TypeView.inStruct hq).trans hin) line
  · rename_i hin
    rw [if_neg hin]
    split_ifs at he ⊢
    · exact h
    · exact h
    · exact h
    · exact close_ok h he
    · exact bodyLine_ok h he

theorem viewOf_takeLine (r : Reader) (text : Bytes) :
    viewOf (takeLine r text).1.parser = viewOf r.parser := by
  unfold takeLine
  dsimp only
  repeat' split
  all_goals rfl

/-- One physical line. -/
theorem readLine_ok {strtold : Strtold} {r : Reader} {text : Bytes}
    (h : TypesOk (viewOf r.parser)) (he : (readLine strtold r text).parser.ctx.errors = []) :
    TypesOk (viewOf (readLine strtold r text).parser) := by
  have htake := viewOf_takeLine r text
  rw [readLine] at he ⊢
  revert he htake
  generalize takeLine r text = taken
  obtain ⟨r', line⟩ := taken
  intro he htake
  cases line with
  | none => exact htake ▸ h
  | some line =>
      obtain ⟨lineno, line⟩ := line
      have hstart : TypesOk (viewOf { r'.parser with
          st := { r'.parser.st with lineno := lineno } }) := htake ▸ h
      exact sourceLine_ok hstart he

/-- All lines. -/
theorem readLines_ok {strtold : Strtold} (texts : List Bytes) :
    ∀ {r : Reader}, TypesOk (viewOf r.parser) →
      (texts.foldl (readLine strtold) r).parser.ctx.errors = [] →
      TypesOk (viewOf (texts.foldl (readLine strtold) r).parser) := by
  induction texts with
  | nil => exact fun h _ => h
  | cons text texts ih =>
      intro r h he
      have hfirst : (readLine strtold r text).parser.ctx.errors = [] :=
        List.prefix_nil.mp (he ▸ readLines_errors strtold texts (readLine strtold r text))
      exact ih (readLine_ok h hfirst) he

/-- No type is open between two files. -/
def ModelOk (types : List ParsedType) : Prop := TypesOk ⟨types, none, false, {}⟩

/-- A file that is accepted leaves no type open. -/
theorem parseSource_ok {strtold : Strtold} {ctx : Generator} {src : Bytes} (h : ModelOk ctx.types)
    (he : (generatorParseSource strtold ctx src).errors = []) :
    ModelOk (generatorParseSource strtold ctx src).types := by
  rw [generatorParseSource] at he ⊢
  split at he
  · simp at he
  rename_i hnul
  rw [if_neg hnul]
  have hlines : (readLines strtold ctx src).parser.ctx.errors = [] →
      TypesOk (viewOf (readLines strtold ctx src).parser) :=
    readLines_ok (r := startFile ctx) _ h
  dsimp only at he ⊢
  generalize readLines strtold ctx src = r at he hlines ⊢
  by_cases hsig : r.signature = []
  · rw [if_neg (not_not.mpr hsig)] at he ⊢
    have hreported : ((unfinished r.parser.st
        ((sourceLines src).length > GENERATOR_MAX_LINES)).filter (·.1)).map (·.2) = [] := by
      by_contra hc
      exact errors_ne_nil r.parser hc he
    have hok := hlines ((keeps_errors _ r.parser).no_errors he)
    have hin : r.parser.st.inStruct = false := by
      by_contra hc
      rw [List.map_eq_nil_iff, List.filter_eq_nil_iff] at hreported
      exact hreported (r.parser.st.inStruct, _)
        (List.mem_of_getElem? (i := 7) rfl) (Bool.not_eq_false _ ▸ hc)
    have hnone : r.parser.st.currentType = none := hok.inside hin
    rw [reportUnfinished, hreported]
    refine ⟨hok.names, hok.length, hok.shape, fun i hi => (by cases hi), fun _ => rfl, ?_, rfl⟩
    intro i t hi _
    refine hok.closed i t hi ?_
    show r.parser.st.currentType ≠ some i
    rw [hnone]
    exact fun h => by cases h
  · rw [if_pos hsig] at he
    exact absurd ((keeps_errors _ _).no_errors he) (by simp)

theorem parseSource_errors (strtold : Strtold) (ctx : Generator) (src : Bytes)
    (he : (generatorParseSource strtold ctx src).errors = []) : ctx.errors = [] := by
  have hlines := (accepted_end he).1
  exact List.prefix_nil.mp (hlines ▸ readLines_errors strtold _ (startFile ctx))

/-- One file of `run_generator`. -/
def parseFile (strtold : Strtold) (ctx : Generator) (file : File) : Generator :=
  generatorParseSource strtold (generatorBeginFile ctx file.1) file.2

theorem parseFiles_errors (strtold : Strtold) (files : List File) :
    ∀ ctx : Generator, (files.foldl (parseFile strtold) ctx).errors = [] → ctx.errors = [] := by
  induction files with
  | nil => exact fun ctx he => he
  | cons file files ih =>
      exact fun ctx he => parseSource_errors strtold (generatorBeginFile ctx file.1) file.2 (ih _ he)

/-- **Every type of the files is well shaped**, once they are accepted. -/
theorem parseFiles_ok (strtold : Strtold) (files : List File) :
    ∀ ctx : Generator, ModelOk ctx.types → (files.foldl (parseFile strtold) ctx).errors = [] →
      ModelOk (files.foldl (parseFile strtold) ctx).types := by
  induction files with
  | nil => exact fun ctx h _ => h
  | cons file files ih =>
      intro ctx h he
      have hbegin : ModelOk (generatorBeginFile ctx file.1).types := h
      exact ih _ (parseSource_ok hbegin (parseFiles_errors strtold files _ he)) he

theorem modelOk_nil : ModelOk [] :=
  ⟨List.Pairwise.nil, Nat.zero_le _, fun _ ht => (nomatch ht), fun _ hi => (nomatch hi),
    fun _ => rfl, fun _ _ hi => (nomatch hi), rfl⟩

end GeneratorTypes

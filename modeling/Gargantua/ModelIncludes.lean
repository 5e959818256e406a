import Gargantua.Lib.Sweeps
import Gargantua.ModelFiles

/-! # The order of the model files (`src/generator/generator_emit_main.c`)

    `emit_model_includes` goes over the model files again and again, as often as
    there are files, and emits each as soon as the files that it needs are there.
    What a file needs is said by its types: a nested field has a type of the
    other file, or a `$pick` takes its fields from one.

    The sweeps settle, and a file that is left then waits for another one that
    is left.  So the files come out in order, or there is a cycle
    (`model_includes_exact`). -/

namespace ModelIncludes

open RouteGenerator hiding ParsedRoute
open CString GeneratorText GeneratorSource GeneratorFile GeneratorValidate ModelFiles Sweeps Relation

/-! ## The source -/

/-- Why `emit_model_includes` returns `-1`: `emit_model_file` did, or a file is
    left, and the message names it. -/
inductive Failure where
  | unwritten (file : Nat)
  | cyclic (message : Bytes)
  deriving Repr, DecidableEq

/-- `included`, the files that have been emitted, and what was written for them. -/
structure Includes where
  included : List Bool
  emitted : List Nat := []
  out : Bytes := []
  deriving Repr, DecidableEq

section Source

variable (ctx : Generator)

/-- `files[i].has_table`. -/
def hasTable (i : Nat) : Bool := ctx.files[i]?.elim false (·.hasTable)

/-- The loop over `k` in `model_file_ready`: another file declares a type of this
    name, and is not included. -/
def missing (included : List Bool) (file : Nat) (name : Bytes) : Bool :=
  ctx.types.any fun k =>
    decide (name = k.name ∧ k.fileIndex ≠ file) && !included.getD k.fileIndex.toNat false

/-- `model_file_ready`. -/
def modelFileReady (file : Nat) (included : List Bool) : Bool :=
  ctx.types.all fun t =>
    decide (t.fileIndex ≠ file)
      || !missing ctx included file t.sourceType
        && t.fields.all fun field => !isObject field || !missing ctx included file field.cType

/-! `emitModelFile` is what `emit_model_file` writes for a file; `none` where it
fails. -/

variable (emitModelFile : Nat → Option Bytes)

/-- The loop body of `emit_model_includes`. -/
def emitStep (st : Includes) (i : Nat) : Except Failure Includes :=
  if st.included.getD i false ∨ hasTable ctx i = false then .ok st
  else if modelFileReady ctx i st.included then
    match emitModelFile i with
    | none => .error (.unwritten i)
    | some text => .ok ⟨st.included.set i true, st.emitted ++ [i], st.out ++ text⟩
  else .ok st

/-- One pass. -/
def emitPass (st : Includes) : Except Failure Includes :=
  (List.range ctx.files.length).foldlM (emitStep ctx emitModelFile) st

/-- The last loop of `emit_model_includes`: is a model file left? -/
def checkIncluded (st : Includes) : Except Failure Includes :=
  match (List.range ctx.files.length).find? fun i => hasTable ctx i && !st.included.getD i false with
  | none => .ok st
  | some i =>
      .error (.cyclic (lit "cyclic model file dependencies: "
        ++ ctx.files[i]?.elim [] (·.path) ++ lit "\n"))

/-- `emit_model_includes`. -/
def emitModelIncludes : Except Failure Includes := do
  let start : Includes := { included := List.replicate ctx.files.length false }
  let st ← (List.range ctx.files.length).foldlM (fun st _ => emitPass ctx emitModelFile st) start
  checkIncluded ctx st

end Source

/-! ## What a file needs -/

/-- A type of the file at `i` has a nested field of a type that is declared in the
    file at `j`, or its `$pick` names one as the source. -/
def DependsOn (ctx : Generator) (i j : Nat) : Prop :=
  i ≠ j ∧ ∃ t ∈ ctx.types, ∃ u ∈ ctx.types, t.fileIndex = i ∧ u.fileIndex = j ∧
    (t.sourceType = u.name ∨ ∃ field ∈ t.fields, field.kind = some .object ∧ field.cType = u.name)

/-- The file depends on itself, through others. -/
def Cyclic (ctx : Generator) : Prop := ∃ i, TransGen (DependsOn ctx) i i

section Proofs

variable {ctx : Generator} {emitModelFile : Nat → Option Bytes}

theorem hasTable_iff {i : Nat} : hasTable ctx i = true ↔ IsModel ctx i := by
  rw [hasTable, IsModel]
  cases ctx.files[i]? with
  | none => simp
  | some file => simp

/-- A file that is needed is a model file. -/
theorem DependsOn.isModel {i j : Nat} (hplaced : Placed ctx) (h : DependsOn ctx i j) :
    IsModel ctx i ∧ IsModel ctx j := by
  obtain ⟨-, t, ht, u, hu, hi, hj, -⟩ := h
  obtain ⟨i', hi', hmodel⟩ := hplaced t ht
  obtain ⟨j', hj', hmodel'⟩ := hplaced u hu
  obtain rfl : i = i' := by omega
  obtain rfl : j = j' := by omega
  exact ⟨hmodel, hmodel'⟩

/-- A name is missing when the file that declares it is another one, and is not
    there. -/
theorem missing_iff (hplaced : Placed ctx) {included : List Bool} {file : Nat} {name : Bytes} :
    missing ctx included file name = true ↔
      ∃ j, file ≠ j ∧ included.getD j false = false ∧
        ∃ u ∈ ctx.types, u.fileIndex = (j : Nat) ∧ name = u.name := by
  rw [missing, List.any_eq_true]
  constructor
  · rintro ⟨u, hu, hmissing⟩
    rw [Bool.and_eq_true, decide_eq_true_eq, Bool.not_eq_true'] at hmissing
    obtain ⟨⟨hname, hother⟩, habsent⟩ := hmissing
    obtain ⟨j, hj, -⟩ := hplaced u hu
    rw [hj, Int.toNat_natCast] at habsent
    exact ⟨j, fun heq => hother (heq ▸ hj), habsent, u, hu, hj, hname⟩
  · rintro ⟨j, hother, habsent, u, hu, hj, hname⟩
    refine ⟨u, hu, ?_⟩
    rw [Bool.and_eq_true, decide_eq_true_eq, Bool.not_eq_true', hj, Int.toNat_natCast]
    exact ⟨⟨hname, fun heq => hother (by omega)⟩, habsent⟩

/-- **A file is ready once the files that it needs are included.** -/
theorem modelFileReady_iff (hplaced : Placed ctx) {file : Nat} {included : List Bool} :
    modelFileReady ctx file included = true ↔
      ∀ j, DependsOn ctx file j → included.getD j false = true := by
  rw [modelFileReady, List.all_eq_true]
  constructor
  · rintro hall j ⟨hother, t, ht, u, hu, hi, hj, hneeds⟩
    have hready := hall t ht
    by_contra habsent
    rw [Bool.not_eq_true] at habsent
    -- the type of the file `j` would be missing under its name
    have hmissing : ∀ name, name = u.name → missing ctx included file name = true :=
      fun name hname => (missing_iff hplaced).mpr ⟨j, hother, habsent, u, hu, hj, hname⟩
    simp only [hi, ne_eq, not_true_eq_false, decide_false, Bool.false_or, Bool.and_eq_true,
      Bool.not_eq_true', List.all_eq_true, Bool.or_eq_true] at hready
    rcases hneeds with hsource | ⟨field, hfield, hobject, htype⟩
    · rw [hmissing _ hsource] at hready
      exact absurd hready.1 (by simp)
    · have hpresent := hready.2 field hfield
      rw [hmissing _ htype, isObject, hobject] at hpresent
      simp at hpresent
  · intro hneeds t ht
    -- the types of other files are not looked at
    by_cases hi : t.fileIndex = file
    · have hnone : ∀ name, (t.sourceType = name ∨ ∃ field ∈ t.fields, field.kind = some .object
          ∧ field.cType = name) → missing ctx included file name = false := by
        intro name hname
        by_contra hmissing
        rw [Bool.not_eq_false, missing_iff hplaced] at hmissing
        obtain ⟨j, hother, habsent, u, hu, hj, rfl⟩ := hmissing
        have hpresent := hneeds j ⟨hother, t, ht, u, hu, hi, hj, hname⟩
        rw [habsent] at hpresent
        cases hpresent
      rw [hnone _ (.inl rfl), Bool.not_false, Bool.true_and, Bool.or_eq_true, List.all_eq_true]
      refine .inr fun field hfield => ?_
      cases hobject : isObject field with
      | false => rfl
      | true => rw [hnone _ (.inr ⟨field, hfield, beq_iff_eq.mp hobject, rfl⟩)]; rfl
    · simp [hi]

/-! ## The sweeps -/

variable (ctx emitModelFile) in
/-- A step, when the file can be written. -/
def takeStep (st : Includes) (i : Nat) : Includes :=
  if st.included.getD i false ∨ hasTable ctx i = false then st
  else if modelFileReady ctx i st.included then
    ⟨st.included.set i true, st.emitted ++ [i], st.out ++ (emitModelFile i).getD []⟩
  else st

/-- A model file that `emit_model_file` fails for. -/
def Unwritten (ctx : Generator) (emitModelFile : Nat → Option Bytes) (e : Failure) : Prop :=
  ∃ i, e = .unwritten i ∧ IsModel ctx i ∧ emitModelFile i = none

theorem emitStep_or (st : Includes) (i : Nat) :
    emitStep ctx emitModelFile st i = .ok (takeStep ctx emitModelFile st i)
      ∨ ∃ e, emitStep ctx emitModelFile st i = .error e ∧ Unwritten ctx emitModelFile e := by
  rw [emitStep, takeStep]
  by_cases hskip : st.included.getD i false = true ∨ hasTable ctx i = false
  · rw [if_pos hskip, if_pos hskip]
    exact .inl rfl
  rw [if_neg hskip, if_neg hskip]
  by_cases hready : modelFileReady ctx i st.included = true
  · rw [if_pos hready, if_pos hready]
    have hmodel : IsModel ctx i := hasTable_iff.mp (by simpa using (not_or.mp hskip).2)
    cases htext : emitModelFile i with
    | none => exact .inr ⟨_, rfl, i, rfl, hmodel, htext⟩
    | some text => exact .inl rfl
  · rw [if_neg hready, if_neg hready]
    exact .inl rfl

/-- What has been emitted is in order, and the flags say what that is. -/
structure Sound (ctx : Generator) (emitModelFile : Nat → Option Bytes) (st : Includes) : Prop where
  length : st.included.length = ctx.files.length
  flags : ∀ i, st.included.getD i false = true ↔ i ∈ st.emitted
  ordered : Ordered (IsModel ctx) (DependsOn ctx) st.emitted
  out : st.out = st.emitted.flatMap fun i => (emitModelFile i).getD []

theorem sound_start :
    Sound ctx emitModelFile { included := List.replicate ctx.files.length false } where
  length := List.length_replicate
  flags := by
    intro i
    rw [List.getD_eq_getElem?_getD, List.getElem?_replicate]
    split <;> simp
  ordered := ordered_nil
  out := rfl

/-- A file that is taken has everything it needs in front of it. -/
theorem Sound.step (hplaced : Placed ctx) {st : Includes} (h : Sound ctx emitModelFile st) (i : Nat) :
    Sound ctx emitModelFile (takeStep ctx emitModelFile st i) := by
  rw [takeStep]
  split
  · exact h
  -- neither a file that is there nor one that has to wait changes anything
  rename_i hskip
  split
  swap
  · exact h
  rename_i hready
  obtain ⟨hnew, htable⟩ := not_or.mp hskip
  have hmodel : IsModel ctx i := hasTable_iff.mp (by simpa using htable)
  have hi : i < st.included.length := by
    rw [h.length]
    exact hmodel.lt
  constructor
  · rw [List.length_set, h.length]
  · intro j
    rw [List.getD_eq_getElem?_getD, List.getElem?_set, List.mem_append, List.mem_singleton, ← h.flags j]
    by_cases hij : i = j
    · rw [if_pos hij, if_pos (hij ▸ hi)]
      simp [hij]
    · rw [if_neg hij, List.getD_eq_getElem?_getD]
      simp [Ne.symm hij]
  · -- `model_file_ready` has found all that the file needs
    refine h.ordered.snoc (fun hmem => hnew ((h.flags i).mpr hmem)) hmodel fun j hj => ?_
    exact (h.flags j).mp ((modelFileReady_iff hplaced).mp hready j hj)
  · show st.out ++ _ = _
    rw [h.out, List.flatMap_append]
    simp

/-- The number of emitted files grows with every change. -/
theorem takeStep_progresses :
    Progresses (takeStep ctx emitModelFile) fun st => st.emitted.length := by
  intro st i
  rw [takeStep]
  split
  · exact .inl rfl
  split
  · right
    show st.emitted.length < (st.emitted ++ [i]).length
    rw [List.length_append]
    exact Nat.lt_succ_self _
  · exact .inl rfl

/-- There are no more of them than files. -/
theorem Sound.emitted_length {st : Includes} (h : Sound ctx emitModelFile st) :
    st.emitted.length ≤ ctx.files.length := by
  have hsub : st.emitted ⊆ List.range ctx.files.length := by
    intro i hi
    exact List.mem_range.mpr (h.ordered.nodes i hi).lt
  have hle := (List.subperm_of_subset h.ordered.nodup hsub).length_le
  rwa [List.length_range] at hle

variable (ctx emitModelFile) in
/-- A pass, when the files can be written. -/
def takePass (st : Includes) : Includes :=
  (List.range ctx.files.length).foldl (takeStep ctx emitModelFile) st

theorem Sound.passes (hplaced : Placed ctx) {st : Includes} (h : Sound ctx emitModelFile st) (k : Nat) :
    Sound ctx emitModelFile ((takePass ctx emitModelFile)^[k] st) := by
  induction k with
  | zero => exact h
  | succ k ih =>
      rw [Function.iterate_succ_apply']
      exact Runs.after_keeps (P := Sound ctx emitModelFile) (fun i _ s hs => hs.step hplaced i) ih

/-- The state behind all passes. -/
structure Settled (ctx : Generator) (emitModelFile : Nat → Option Bytes) (st : Includes) : Prop
    extends Sound ctx emitModelFile st where
  waiting : ∀ i, IsModel ctx i → (∀ j, DependsOn ctx i j → j ∈ st.emitted) → i ∈ st.emitted

/-- **As many passes as files settle the files**: a file that is left waits for
    another one. -/
theorem passes_settled (hplaced : Placed ctx) {st : Includes} (h : Sound ctx emitModelFile st) :
    Settled ctx emitModelFile ((takePass ctx emitModelFile)^[ctx.files.length] st) := by
  have hsound := h.passes hplaced ctx.files.length
  have hfixed : takePass ctx emitModelFile ((takePass ctx emitModelFile)^[ctx.files.length] st)
      = (takePass ctx emitModelFile)^[ctx.files.length] st :=
    sweeps_settle (sweep_progresses takeStep_progresses (List.range ctx.files.length))
      fun k => (h.passes hplaced k).emitted_length
  generalize (takePass ctx emitModelFile)^[ctx.files.length] st = last at hsound hfixed ⊢
  refine ⟨hsound, fun i hmodel hneeds => ?_⟩
  -- one pass more changes nothing, and so none of its steps does
  have hstill : takeStep ctx emitModelFile last i = last :=
    sweep_still takeStep_progresses hfixed i (List.mem_range.mpr hmodel.lt)
  by_contra hleft
  -- a file that could be taken would have been, and the list would be longer
  have hskip : ¬ (last.included.getD i false = true ∨ hasTable ctx i = false) := by
    rw [hsound.flags i, hasTable_iff.mpr hmodel]
    simp [hleft]
  have hready : modelFileReady ctx i last.included = true :=
    (modelFileReady_iff hplaced).mpr fun j hj => (hsound.flags j).mpr (hneeds j hj)
  rw [takeStep, if_neg hskip, if_pos hready] at hstill
  have hlen := congrArg (fun st => st.emitted.length) hstill
  simp at hlen

/-- All files are there, or there is a cycle. -/
theorem Settled.all_or_cyclic (hplaced : Placed ctx) {st : Includes}
    (h : Settled ctx emitModelFile st) (hacyclic : ¬ Cyclic ctx) {i : Nat} (hi : IsModel ctx i) :
    i ∈ st.emitted := by
  have hfinite : {i | IsModel ctx i}.Finite :=
    (Set.finite_lt_nat ctx.files.length).subset fun i hi => IsModel.lt hi
  exact all_taken hfinite (fun a b _ hab => (hab.isModel hplaced).2) h.waiting
    (fun a _ hcycle => hacyclic ⟨a, hcycle⟩) hi

/-! ## What `emit_model_includes` returns -/

/-- Each model file has been emitted once, behind every file that it needs. -/
structure InOrder (ctx : Generator) (emitModelFile : Nat → Option Bytes) (st : Includes) : Prop where
  all : ∀ i, i ∈ st.emitted ↔ IsModel ctx i
  once : st.emitted.Nodup
  behind : ∀ pre i post, st.emitted = pre ++ i :: post → ∀ j, DependsOn ctx i j → j ∈ pre
  out : st.out = st.emitted.flatMap fun i => (emitModelFile i).getD []

/-- A file could not be written, or all are in order, or there is a cycle. -/
theorem emitModelIncludes_cases (hplaced : Placed ctx) :
    (∃ e, emitModelIncludes ctx emitModelFile = .error e ∧ Unwritten ctx emitModelFile e)
      ∨ (∃ st, emitModelIncludes ctx emitModelFile = .ok st ∧ InOrder ctx emitModelFile st)
      ∨ ((∃ message, emitModelIncludes ctx emitModelFile = .error (.cyclic message)) ∧ Cyclic ctx) := by
  have hpass : ∀ (st : Includes) (k : Nat),
      emitPass ctx emitModelFile st = .ok (takePass ctx emitModelFile st)
        ∨ ∃ e, emitPass ctx emitModelFile st = .error e ∧ Unwritten ctx emitModelFile e :=
    fun st _ => sweep_or_fails emitStep_or (List.range ctx.files.length) st
  rcases sweep_or_fails hpass (List.range ctx.files.length)
    { included := List.replicate ctx.files.length false } with hrun | ⟨e, hrun, he⟩
  swap
  · -- `emit_model_file` failed in one of the passes
    have herror : emitModelIncludes ctx emitModelFile = .error e := by
      rw [emitModelIncludes, hrun]
      rfl
    exact .inl ⟨e, herror, he⟩
  have hsettled := @passes_settled _ emitModelFile hplaced _ sound_start
  rw [List.foldl_const, List.length_range] at hrun
  generalize (takePass ctx emitModelFile)^[ctx.files.length] _ = st at hsettled hrun
  -- all passes ran: the last loop decides
  have hresult : emitModelIncludes ctx emitModelFile = checkIncluded ctx st := by
    rw [emitModelIncludes, hrun]
    rfl
  rw [hresult, checkIncluded]
  cases hfind : (List.range ctx.files.length).find? fun i =>
      hasTable ctx i && !st.included.getD i false with
  | none =>
      refine .inr (.inl ⟨st, rfl, ⟨fun i => ⟨hsettled.ordered.nodes i, fun hi => ?_⟩,
        hsettled.ordered.nodup, hsettled.ordered.behind, hsettled.out⟩⟩)
      have hthere := List.find?_eq_none.mp hfind i (List.mem_range.mpr hi.lt)
      rw [hasTable_iff.mpr hi, Bool.true_and, Bool.not_eq_true', Bool.not_eq_false,
        hsettled.flags] at hthere
      exact hthere
  | some i =>
      have hleft := List.find?_some hfind
      rw [Bool.and_eq_true, hasTable_iff, Bool.not_eq_true'] at hleft
      refine .inr (.inr ⟨⟨_, rfl⟩, ?_⟩)
      by_contra hacyclic
      have hthere := (hsettled.flags i).mpr (hsettled.all_or_cyclic hplaced hacyclic hleft.1)
      rw [hleft.2] at hthere
      cases hthere

/-- Files in order have no cycle. -/
theorem InOrder.acyclic (hplaced : Placed ctx) {st : Includes} (h : InOrder ctx emitModelFile st) :
    ¬ Cyclic ctx := by
  rintro ⟨i, hcycle⟩
  obtain ⟨j, hij, -⟩ := TransGen.head'_iff.mp hcycle
  have hordered : Ordered (IsModel ctx) (DependsOn ctx) st.emitted :=
    ⟨h.once, fun i hi => (h.all i).mp hi, h.behind⟩
  exact hordered.no_cycle ((h.all i).mpr (hij.isModel hplaced).1) hcycle

end Proofs

/-- **Model files are included in dependency order**: each of them once and behind
    all that it needs, or `emit_model_includes` fails.  It fails exactly when the
    files depend on each other in a cycle, unless one cannot be written. -/
theorem model_includes_exact (strtold : Strtold) (files : List File)
    (emitModelFile : Nat → Option Bytes) :
    (∀ st, emitModelIncludes (runGenerator strtold files) emitModelFile = .ok st →
        InOrder (runGenerator strtold files) emitModelFile st)
      ∧ (∀ e, emitModelIncludes (runGenerator strtold files) emitModelFile = .error e →
        Unwritten (runGenerator strtold files) emitModelFile e
          ∨ Cyclic (runGenerator strtold files))
      ∧ (Cyclic (runGenerator strtold files) →
        ∃ e, emitModelIncludes (runGenerator strtold files) emitModelFile = .error e)
      ∧ ((∀ i, IsModel (runGenerator strtold files) i → emitModelFile i ≠ none) →
        ((∃ e, emitModelIncludes (runGenerator strtold files) emitModelFile = .error e)
          ↔ Cyclic (runGenerator strtold files))) := by
  have hplaced := runGenerator_placed strtold files
  generalize runGenerator strtold files = ctx at hplaced
  have hcases := @emitModelIncludes_cases _ emitModelFile hplaced
  generalize emitModelIncludes ctx emitModelFile = result at hcases
  have hfails : ∀ e, result = .error e → Unwritten ctx emitModelFile e ∨ Cyclic ctx := by
    rintro e rfl
    rcases hcases with ⟨e', he, hunwritten⟩ | ⟨st, hst, -⟩ | ⟨-, hcyclic⟩
    · cases he
      exact .inl hunwritten
    · cases hst
    · exact .inr hcyclic
  have hcycle : Cyclic ctx → ∃ e, result = .error e := by
    intro hcyclic
    rcases hcases with ⟨e, he, -⟩ | ⟨st, -, horder⟩ | ⟨⟨message, he⟩, -⟩
    · exact ⟨e, he⟩
    · exact absurd hcyclic (horder.acyclic hplaced)
    · exact ⟨_, he⟩
  refine ⟨?_, hfails, hcycle, fun hwritten => ⟨?_, hcycle⟩⟩
  · rintro st rfl
    rcases hcases with ⟨e, he, -⟩ | ⟨st', hst, horder⟩ | ⟨⟨message, he⟩, -⟩
    · cases he
    · cases hst
      exact horder
    · cases he
  · rintro ⟨e, he⟩
    rcases hfails e he with ⟨i, -, hmodel, hnone⟩ | hcyclic
    · exact absurd hnone (hwritten i hmodel)
    · exact hcyclic

end ModelIncludes

import Gargantua.GeneratorValidate

/-! # Security annotations and their declarations

    `$public`, `$authenticated` and `$role` say who may call the route that
    follows.  Seen from outside, a file is a list of annotations and
    declarations; an annotation should belong to the declaration right behind
    it, which has to be a route.

    The pending flags do not always keep to that: a `$store` line and the
    signature of a task return before the dangling annotations are looked at,
    and a second `$role` overwrites the first. -/

namespace GeneratorAuth

open RouteGenerator hiding ParsedRoute
open CString GeneratorText GeneratorSource GeneratorFields GeneratorFile GeneratorValidate Runs

/-! ## What a file says -/

/-- A security annotation, a route, or another declaration: a task, a store, a
    type or a transactional service. -/
inductive Event where
  | annotated (a : AuthAnnotation)
  | route (r : ParsedRoute)
  | other
  deriving Repr, DecidableEq

/-- The annotation holds of the route. -/
def appliesTo (a : AuthAnnotation) (r : ParsedRoute) : Prop :=
  match a with
  | .authenticated => r.authenticated = true
  | .isPublic => r.publicRoute = true
  | .role name => r.role = name ∧ name ≠ []

/-- The first declaration of a list. -/
def firstDeclaration : List Event → Option Event
  | [] => none
  | .annotated _ :: es => firstDeclaration es
  | e :: _ => some e

/-- The declaration in front of `es` is a route, and the annotation holds of it. -/
def Reaches (a : AuthAnnotation) (es : List Event) : Prop :=
  ∃ r, firstDeclaration es = some (.route r) ∧ appliesTo a r

/-- Every annotation is applied to the declaration that follows it, a route. -/
def Applied : List Event → Prop
  | [] => True
  | .annotated a :: es => Reaches a es ∧ Applied es
  | _ :: es => Applied es

/-- A route has only what the annotations since the last declaration say, `above`
    being those in front of the list. -/
def Explained : List AuthAnnotation → List Event → Prop
  | _, [] => True
  | above, .annotated a :: es => Explained (a :: above) es
  | above, .route r :: es => (∀ a, appliesTo a r → a ∈ above) ∧ Explained [] es
  | _, .other :: es => Explained [] es

/-- The annotations of a file bind to their own declarations only. -/
def BindsOwn (es : List Event) : Prop := Applied es ∧ Explained [] es

/-- What a logical line comes to, seen in what has been declared before it and
    after it. -/
def lineEvent (before after : Generator) (line : Bytes) : Option Event :=
  if before.routes.length < after.routes.length then after.routes.getLast?.map .route
  else if before.tasks.length < after.tasks.length ∨ before.stores.length < after.stores.length
      ∨ before.types.length < after.types.length
      ∨ before.services.length < after.services.length then
    some .other
  else
    match authAnnotation line with
    | some (.ok a) => some (.annotated a)
    | _ => none

section Files

variable (strtold : Strtold)

/-- What a physical line comes to. -/
def textEvent (r : Reader) (text : Bytes) : Option Event :=
  match takeLine r text with
  | (_, none) => none
  | (r, some (lineno, line)) =>
      lineEvent r.parser.ctx
        (parseSourceLine strtold
          { r.parser with st := { r.parser.st with lineno := lineno } } line).ctx line

/-- The annotations and declarations of some lines, in order. -/
def events : Reader → List Bytes → List Event
  | _, [] => []
  | r, text :: texts => (textEvent strtold r text).toList ++ events (readLine strtold r text) texts

/-- The reader in front of a file. -/
def startFile (ctx : Generator) : Reader := { parser := ⟨ctx, {}⟩ }

/-- The annotations and declarations of a file. -/
def fileEvents (ctx : Generator) (src : Bytes) : List Event :=
  events strtold (startFile ctx) ((sourceLines src).take GENERATOR_MAX_LINES)

end Files

/-! ## Where the flags go astray -/

/-- A security annotation is pending. -/
def ParseState.secured (st : ParseState) : Bool :=
  st.pendingAuth || st.pendingPublic || st.pendingRole != []

/-- The line would be the signature of a task that is armed. -/
def signatureOf (line : Bytes) : Bool :=
  line ≠ [] ∧ line ≠ lit "$transactional" ∧ authAnnotation line = none
    ∧ (lit "$produces(").isPrefixOf line = false ∧ (lit "$store(").isPrefixOf line = false
    ∧ line ≠ lit "$on_start" ∧ (lit "$repeat(").isPrefixOf line = false

/-- `parse_store_annotation` or `parse_task` takes the line, and the dangling
    annotations are not looked at. -/
def skipsCheck (st : ParseState) (line : Bytes) : Bool :=
  !st.inStruct && !st.routeArmed
    && ((lit "$store(").isPrefixOf line || (st.taskArmed && signatureOf line))

/-- The line is a `$role` while another role is pending. -/
def overwritesRole (st : ParseState) (line : Bytes) : Bool :=
  match authAnnotation line with
  | some (.ok (.role name)) => st.pendingRole != [] && st.pendingRole != name
  | _ => false

/-- The pending flags go astray at this line. -/
def diverts (st : ParseState) (line : Bytes) : Bool :=
  (ParseState.secured st && skipsCheck st line) || overwritesRole st line

/-- The same of a physical line. -/
def textDiverts (r : Reader) (text : Bytes) : Bool :=
  match takeLine r text with
  | (_, none) => false
  | (r, some (_, line)) => diverts r.parser.st line

/-! ## Handlers that keep out of it -/

/-- The security flags and what has been declared are as they were, and no error
    has been taken back. -/
structure Keeps (p p' : Parser) : Prop where
  errors : p.ctx.errors <+: p'.ctx.errors
  auth : p'.st.pendingAuth = p.st.pendingAuth
  isPublic : p'.st.pendingPublic = p.st.pendingPublic
  role : p'.st.pendingRole = p.st.pendingRole
  routes : p'.ctx.routes = p.ctx.routes
  tasks : p'.ctx.tasks = p.ctx.tasks
  stores : p'.ctx.stores = p.ctx.stores
  services : p'.ctx.services = p.ctx.services
  types : p'.ctx.types.length = p.ctx.types.length

theorem Keeps.refl (p : Parser) : Keeps p p :=
  ⟨List.prefix_refl _, rfl, rfl, rfl, rfl, rfl, rfl, rfl, rfl⟩

theorem Keeps.trans {p q r : Parser} (h : Keeps p q) (h' : Keeps q r) : Keeps p r where
  errors := h.errors.trans h'.errors
  auth := h'.auth.trans h.auth
  isPublic := h'.isPublic.trans h.isPublic
  role := h'.role.trans h.role
  routes := h'.routes.trans h.routes
  tasks := h'.tasks.trans h.tasks
  stores := h'.stores.trans h.stores
  services := h'.services.trans h.services
  types := h'.types.trans h.types

theorem keeps_error (p : Parser) (message : Bytes) : Keeps p (p.error message) :=
  ⟨List.prefix_append _ _, rfl, rfl, rfl, rfl, rfl, rfl, rfl, rfl⟩

theorem keeps_failed (p : Parser) (e : Option Bytes) : Keeps p (p.failed e) := by
  cases e with
  | none => exact Keeps.refl p
  | some message => exact keeps_error p message

/-- A change of the state that leaves the flags alone. -/
theorem keeps_state (p : Parser) {st : ParseState} (hauth : st.pendingAuth = p.st.pendingAuth)
    (hpublic : st.pendingPublic = p.st.pendingPublic) (hrole : st.pendingRole = p.st.pendingRole) :
    Keeps p { p with st := st } :=
  ⟨List.prefix_refl _, hauth, hpublic, hrole, rfl, rfl, rfl, rfl, rfl⟩

theorem keeps_errors (messages : List Bytes) : ∀ p : Parser, Keeps p (p.errors messages) := by
  induction messages with
  | nil => exact Keeps.refl
  | cons message messages ih => exact fun p => (keeps_error p message).trans (ih _)

theorem error_ne_nil (p : Parser) (message : Bytes) : (p.error message).ctx.errors ≠ [] := by
  show p.ctx.errors ++ [_] ≠ []
  simp

theorem errors_ne_nil (p : Parser) {messages : List Bytes} (h : messages ≠ []) :
    (p.errors messages).ctx.errors ≠ [] := by
  cases messages with
  | nil => exact absurd rfl h
  | cons message messages =>
      exact fun he => error_ne_nil p message
        (List.prefix_nil.mp (he ▸ (keeps_errors messages (p.error message)).errors))

theorem Keeps.no_errors {p p' : Parser} (h : Keeps p p') (hp : p'.ctx.errors = []) :
    p.ctx.errors = [] :=
  List.prefix_nil.mp (hp ▸ h.errors)

/-- What `collect_function` and `guard_transaction` leave of a parser: functions and
    errors are added, and the blocks are counted. -/
structure Passed (p p' : Parser) : Prop where
  errors : p.ctx.errors <+: p'.ctx.errors
  ctx : p'.ctx = { p.ctx with errors := p'.ctx.errors, functions := p'.ctx.functions }
  st : p'.st = { p.st with
    braceDepth := p'.st.braceDepth
    transactionBlockArmed := p'.st.transactionBlockArmed
    transactionDepths := p'.st.transactionDepths }

theorem Passed.refl (p : Parser) : Passed p p := ⟨List.prefix_refl _, rfl, rfl⟩

theorem Passed.trans {p q r : Parser} (h : Passed p q) (h' : Passed q r) : Passed p r where
  errors := h.errors.trans h'.errors
  ctx := h'.ctx.trans (by rw [h.ctx])
  st := h'.st.trans (by rw [h.st])

theorem Passed.keeps {p p' : Parser} (h : Passed p p') : Keeps p p' where
  errors := h.errors
  auth := congrArg (·.pendingAuth) h.st
  isPublic := congrArg (·.pendingPublic) h.st
  role := congrArg (·.pendingRole) h.st
  routes := congrArg (·.routes) h.ctx
  tasks := congrArg (·.tasks) h.ctx
  stores := congrArg (·.stores) h.ctx
  services := congrArg (·.services) h.ctx
  types := congrArg (·.types.length) h.ctx

theorem passed_error (p : Parser) (message : Bytes) : Passed p (p.error message) :=
  ⟨List.prefix_append _ _, rfl, rfl⟩

theorem passed_collectFunction (p : Parser) (line : Bytes) : Passed p (collectFunction p line) := by
  rw [collectFunction]
  split
  · exact Passed.refl p
  · split
    · split
      · exact passed_error p _
      · split
        · exact passed_error p _
        · exact ⟨List.prefix_refl _, rfl, rfl⟩
    · exact Passed.refl p

theorem passed_guardWord (p : Parser) (word : Bytes) : Passed p (guardWord p word) := by
  have harm : Passed p (armTransaction p word) := by
    rw [armTransaction]
    split
    · exact ⟨List.prefix_refl _, rfl, rfl⟩
    · exact Passed.refl p
  have hreturn : Passed (armTransaction p word) (guardWord p word) := by
    rw [guardWord, guardReturn]
    split
    · exact passed_error _ _
    · exact Passed.refl _
  exact harm.trans hreturn

theorem passed_openTransaction (p : Parser) : Passed p (openTransaction p) := by
  rw [openTransaction]
  split
  · exact passed_error p _
  · exact ⟨List.prefix_refl _, rfl, rfl⟩

theorem passed_guardCode (p : Parser) (c : Byte) : Passed p (guardCode p c).1 := by
  have hopen : Passed p (openBrace p) := by
    have hdepth : Passed p { p with st := { p.st with braceDepth := p.st.braceDepth + 1 } } :=
      ⟨List.prefix_refl _, rfl, rfl⟩
    unfold openBrace
    dsimp only
    split
    · exact (hdepth.trans (passed_openTransaction _)).trans ⟨List.prefix_refl _, rfl, rfl⟩
    · exact hdepth
  rw [guardCode]
  split_ifs
  · exact Passed.refl p
  · exact Passed.refl p
  · exact hopen
  · exact ⟨List.prefix_refl _, rfl, rfl⟩
  · exact Passed.refl p

theorem passed_guardLoop (line : Bytes) :
    ∀ (p : Parser) (mode : GuardMode), Passed p (guardLoop p mode line) := by
  induction line with
  | nil =>
      intro p mode
      cases mode with
      | word text => exact passed_guardWord p text
      | code => exact Passed.refl p
      | quoted quote => exact Passed.refl p
      | escaped quote => exact Passed.refl p
  | cons c line ih =>
      intro p mode
      cases mode with
      | code => exact (passed_guardCode p c).trans (ih _ _)
      | escaped quote => exact ih p _
      | quoted quote =>
          rw [guardLoop]
          split
          · exact ih p _
          · exact ih p _
      | word text =>
          rw [guardLoop]
          split
          · exact ih p _
          · exact ((passed_guardWord p text).trans (passed_guardCode _ c)).trans (ih _ _)

/-- What stands in front of a declaration is passed over. -/
theorem passed_top (p : Parser) (line : Bytes) :
    Passed p (guardTransaction (collectFunction p line) line) :=
  (passed_collectFunction p line).trans (passed_guardLoop line _ _)

theorem keeps_transactional {p p' : Parser} {line : Bytes}
    (h : parseTransactionalAnnotation p line = some p') : Keeps p p' := by
  rw [ parseTransactionalAnnotation] at h
  split_ifs at h <;> obtain rfl := Option.some.inj h
  · exact keeps_error p _
  · exact keeps_error p _
  · exact keeps_state p rfl rfl rfl

theorem keeps_produces {p p' : Parser} {line : Bytes}
    (h : parseProducesAnnotation p line = some p') : Keeps p p' := by
  rw [ parseProducesAnnotation] at h
  split at h
  · exact nomatch h
  · split at h
    · obtain rfl := Option.some.inj h
      exact keeps_failed p _
    · split_ifs at h <;> obtain rfl := Option.some.inj h
      · exact keeps_error p _
      · exact keeps_error p _
      · exact keeps_error p _
      · exact keeps_state p rfl rfl rfl

theorem keeps_repeat {p p' : Parser} {line : Bytes}
    (h : parseRepeatAnnotation p line = some p') : Keeps p p' := by
  rw [ parseRepeatAnnotation] at h
  split at h
  · split at h <;> obtain rfl := Option.some.inj h
    · exact keeps_error p _
    · exact keeps_state p rfl rfl rfl
  · split at h
    · exact nomatch h
    · split at h
      · obtain rfl := Option.some.inj h
        exact keeps_failed p _
      · split at h
        · obtain rfl := Option.some.inj h
          exact keeps_error p _
        · split at h <;> obtain rfl := Option.some.inj h
          · exact keeps_error p _
          · exact keeps_state p rfl rfl rfl

theorem keeps_routeAnnotation {p p' : Parser} {line : Bytes}
    (h : parseRouteAnnotation p line = some p') : Keeps p p' := by
  rw [ parseRouteAnnotation] at h
  split at h
  · exact nomatch h
  · obtain rfl := Option.some.inj h
    exact keeps_failed p _
  · obtain rfl := Option.some.inj h
    exact keeps_state p rfl rfl rfl

theorem keeps_removed {p p' : Parser} {line : Bytes}
    (h : reportRemovedAnnotation p line = some p') : Keeps p p' := by
  rw [ reportRemovedAnnotation] at h
  split_ifs at h <;> obtain rfl := Option.some.inj h
  · exact keeps_error p _
  · exact keeps_error p _

/-! ## Lines of a type -/

theorem keeps_onType (p : Parser) (change : ParsedType → ParsedType) :
    Keeps p (Parser.onType p change) := by
  rw [Parser.onType]
  split
  · exact Keeps.refl p
  · exact ⟨List.prefix_refl _, rfl, rfl, rfl, rfl, rfl, rfl, rfl, List.length_modify ..⟩

theorem keeps_pickName {p p' : Parser} {first : Bool} {name : Bytes}
    (h : pickName p first name = .ok p') : Keeps p p' := by
  rw [pickName] at h
  split_ifs at h <;> obtain rfl := Except.ok.inj h
  · exact keeps_onType p _
  · exact keeps_onType p _

theorem keeps_pickLoop (n : Nat) :
    ∀ (first : Bool) (cursor : Bytes) (p : Parser), Keeps p (pickLoop n first cursor p) := by
  induction n with
  | zero => exact fun _ _ p => keeps_error p _
  | succ n ih =>
      intro first cursor p
      rw [pickLoop]
      split
      · exact keeps_error p _
      · rename_i p' hname
        have hkeeps := keeps_pickName hname
        split
        · exact hkeeps.trans (ih _ _ _)
        · split
          · exact hkeeps.trans (keeps_error _ _)
          · exact hkeeps

theorem keeps_pick {p p' : Parser} {line : Bytes} (h : parsePick p line = some p') :
    Keeps p p' := by
  rw [parsePick] at h
  split_ifs at h <;> obtain rfl := Option.some.inj h
  · exact keeps_pickLoop _ _ _ p
  · exact keeps_error p _

theorem keeps_rule {strtold : Strtold} {p p' : Parser} {line : Bytes}
    (h : ruleAnnotation strtold p line = some p') : Keeps p p' := by
  rw [ ruleAnnotation] at h
  split at h
  · exact nomatch h
  · split at h <;> obtain rfl := Option.some.inj h
    · rename_i rules _
      have hrules : Keeps p { p with st := { p.st with rules := rules } } :=
        keeps_state p rfl rfl rfl
      exact hrules.trans (keeps_error _ _)
    · exact keeps_state p rfl rfl rfl

theorem keeps_references {p p' : Parser} {line : Bytes}
    (h : parseReferencesAnnotation p line = some p') : Keeps p p' := by
  rw [ parseReferencesAnnotation] at h
  split_ifs at h <;> obtain rfl := Option.some.inj h
  · exact keeps_error p _
  · exact keeps_error p _
  · exact keeps_state p rfl rfl rfl

theorem keeps_fieldLineReady (p : Parser) (line : Bytes) : Keeps p (fieldLineReady p line).1 := by
  rw [fieldLineReady]
  split
  · split
    · exact keeps_state p rfl rfl rfl
    · exact keeps_error p _
  · split
    · exact keeps_error p _
    · split
      · exact (keeps_error p _).trans (keeps_state _ rfl rfl rfl)
      · exact Keeps.refl p

theorem keeps_addField (p : Parser) (f : ParsedField) : Keeps p (addField p f) := by
  have hp : Keeps p { p.errors (checkValidation f.kind p.st.rules).2 with
      st := { (p.errors (checkValidation f.kind p.st.rules).2).st with
        rules := {}, pendingReferences := [] } } :=
    (keeps_errors _ p).trans (keeps_state _ rfl rfl rfl)
  unfold addField
  split
  · exact hp.trans (keeps_error _ _)
  · exact hp.trans (keeps_onType _ _)

theorem keeps_takeField (p : Parser) (text : Bytes) : Keeps p (takeField p text) := by
  rw [takeField]
  split
  · exact keeps_failed p _
  · exact Keeps.refl p
  · exact keeps_addField p _

theorem keeps_bodyLine (strtold : Strtold) (p : Parser) (line : Bytes) :
    Keeps p (parseTypeBodyLine strtold p line) := by
  rw [parseTypeBodyLine]
  split
  · exact keeps_pick ‹_›
  · split
    · exact keeps_rule ‹_›
    · split
      · exact keeps_references ‹_›
      · have hready := keeps_fieldLineReady p line
        revert hready
        generalize fieldLineReady p line = r
        obtain ⟨p', text⟩ := r
        intro hready
        cases text with
        | none => exact hready
        | some text =>
            exact (hready.trans (keeps_takeField p' text)).trans (keeps_state _ rfl rfl rfl)

theorem keeps_close (p : Parser) (line : Bytes) : Keeps p (handleClose p line) :=
  (keeps_errors _ p).trans (keeps_state _ rfl rfl rfl)

/-! ## Declarations -/

/-- What a line at the top level does, if it reports no error. -/
inductive Step (p : Parser) (line : Bytes) (p' : Parser) : Prop where
  | keeps (h : Keeps p p') (hskip : skipsCheck p.st line = false)
      (hno : ∀ a, authAnnotation line ≠ some (.ok a))
  | annotated (a : AuthAnnotation) (q : Parser) (ha : authAnnotation line = some (.ok a))
      (hq : Keeps p q) (hp' : p' = { q with st := q.st.pend a })
      (hskip : skipsCheck p.st line = false)
  | route (r : ParsedRoute) (hauth : r.authenticated = p.st.pendingAuth)
      (hpublic : r.publicRoute = p.st.pendingPublic) (hrole : r.role = p.st.pendingRole)
      (hroutes : p'.ctx.routes = p.ctx.routes ++ [r]) (hclear : ParseState.secured p'.st = false)
      (hskip : skipsCheck p.st line = false) (hno : authAnnotation line = none)
  | other (hauth : p'.st.pendingAuth = p.st.pendingAuth)
      (hpublic : p'.st.pendingPublic = p.st.pendingPublic)
      (hrole : p'.st.pendingRole = p.st.pendingRole)
      (hroutes : p'.ctx.routes = p.ctx.routes)
      (hgrown : p.ctx.tasks.length < p'.ctx.tasks.length
        ∨ p.ctx.stores.length < p'.ctx.stores.length
        ∨ p.ctx.types.length < p'.ctx.types.length
        ∨ p.ctx.services.length < p'.ctx.services.length)
      (hskip : skipsCheck p.st line = true ∨ ParseState.secured p.st = false)
      (hno : authAnnotation line = none)

theorem store_not_auth {line : Bytes} (h : (lit "$store(").isPrefixOf line = true) :
    authAnnotation line = none := by
  obtain ⟨t, rfl⟩ := List.isPrefixOf_iff_prefix.mp h
  rfl

theorem store_not_produces {line : Bytes} (h : (lit "$store(").isPrefixOf line = true) :
    (lit "$produces(").isPrefixOf line = false := by
  obtain ⟨t, rfl⟩ := List.isPrefixOf_iff_prefix.mp h
  rfl

theorem parseStore_spec {p p' : Parser} {line : Bytes}
    (h : parseStoreAnnotation p line = some p') :
    (Keeps p p' ∧ p'.ctx.errors ≠ [])
      ∨ ∃ store, p' = { p with ctx := { p.ctx with stores := p.ctx.stores ++ [store] } } := by
  rw [ parseStoreAnnotation] at h
  split at h
  · exact nomatch h
  · split at h
    · obtain rfl := Option.some.inj h
      exact Or.inl ⟨keeps_error p _, error_ne_nil p _⟩
    · split at h
      · obtain rfl := Option.some.inj h
        exact Or.inl ⟨keeps_error p _, error_ne_nil p _⟩
      · split at h
        · obtain rfl := Option.some.inj h
          exact Or.inl ⟨keeps_error p _, error_ne_nil p _⟩
        · split_ifs at h <;> obtain rfl := Option.some.inj h
          · exact Or.inl ⟨keeps_error p _, error_ne_nil p _⟩
          · exact Or.inl ⟨keeps_error p _, error_ne_nil p _⟩
          · exact Or.inr ⟨_, rfl⟩

theorem parseTask_spec (p : Parser) (line : Bytes) :
    (Keeps p (parseTask p line) ∧ (parseTask p line).ctx.errors ≠ [])
      ∨ ∃ task, parseTask p line
          = { ctx := ({ p.ctx with tasks := p.ctx.tasks ++ [task] }).markFile
                (fun file => { file with hasTask := true })
              st := { p.st with taskArmed := false } } := by
  have hdisarm : Keeps p { p with st := { p.st with taskArmed := false } } :=
    keeps_state p rfl rfl rfl
  have herror : ∀ message, Keeps p (Parser.error { p with st := { p.st with taskArmed := false } }
      message) := fun message => hdisarm.trans (keeps_error _ message)
  unfold parseTask
  dsimp only
  split
  · exact Or.inl ⟨herror _, error_ne_nil _ _⟩
  · split
    · split
      · exact Or.inl ⟨herror _, error_ne_nil _ _⟩
      · split
        · exact Or.inl ⟨(hdisarm.trans (keeps_failed _ _)).trans (keeps_error _ _),
            error_ne_nil _ _⟩
        · split
          · exact Or.inl ⟨herror _, error_ne_nil _ _⟩
          · exact Or.inr ⟨_, rfl⟩
    · exact Or.inl ⟨herror _, error_ne_nil _ _⟩

theorem takeService_spec (p : Parser) (line : Bytes) :
    Keeps p (takeService p line)
      ∨ ∃ service, takeService p line
          = { p with
              ctx := ({ p.ctx with services := p.ctx.services ++ [service] }).markFile
                (fun file => { file with hasService := true }) } := by
  rw [takeService]
  split
  · exact Or.inl (keeps_error p _)
  · split
    · exact Or.inl (keeps_failed p _)
    · exact Or.inr ⟨_, rfl⟩

theorem openType_spec (p : Parser) (line : Bytes) :
    Keeps p (openType p line)
      ∨ ∃ type st, openType p line
          = { ctx := ({ p.ctx with types := p.ctx.types ++ [type] }).markFile
                (fun file => { file with hasTable := true })
              st := st }
          ∧ st.pendingAuth = p.st.pendingAuth ∧ st.pendingPublic = p.st.pendingPublic
          ∧ st.pendingRole = p.st.pendingRole := by
  rw [openType]
  split
  · exact Or.inl (keeps_failed p _)
  · split
    · exact Or.inl (keeps_error p _)
    · split
      · exact Or.inl (keeps_error p _)
      · exact Or.inr ⟨_, _, rfl, rfl, rfl, rfl⟩

/-- What is pending goes to the route, and nothing of it stays. -/
theorem takePending_spec (p : Parser) (r : ParsedRoute) :
    p.ctx.errors <+: (takePendingAnnotations p r).1.ctx.errors
      ∧ (takePendingAnnotations p r).1.ctx.routes = p.ctx.routes
      ∧ ParseState.secured (takePendingAnnotations p r).1.st = false
      ∧ (takePendingAnnotations p r).2.authenticated = p.st.pendingAuth
      ∧ (takePendingAnnotations p r).2.publicRoute = p.st.pendingPublic
      ∧ (takePendingAnnotations p r).2.role = p.st.pendingRole := by
  unfold takePendingAnnotations
  dsimp only
  -- a public route that asks for a login is an error, and is built all the same
  split
  · exact ⟨(keeps_error p _).errors, rfl, rfl, rfl, rfl, rfl⟩
  · exact ⟨List.prefix_refl _, rfl, rfl, rfl, rfl, rfl⟩

theorem parseRoute_spec (p : Parser) (line : Bytes) :
    Keeps p (parseRoute p line)
      ∨ (p.ctx.errors <+: (parseRoute p line).ctx.errors
        ∧ ParseState.secured (parseRoute p line).st = false
        ∧ ∃ r : ParsedRoute, (parseRoute p line).ctx.routes = p.ctx.routes ++ [r]
          ∧ r.authenticated = p.st.pendingAuth ∧ r.publicRoute = p.st.pendingPublic
          ∧ r.role = p.st.pendingRole) := by
  have hdisarm : Keeps p { p with st := { p.st with routeArmed := false } } :=
    keeps_state p rfl rfl rfl
  unfold parseRoute
  dsimp only
  split
  · exact Or.inl (hdisarm.trans (keeps_error _ _))
  · split
    · exact Or.inl (hdisarm.trans (keeps_failed _ _))
    · rename_i r _
      have htake := takePending_spec { p with st := { p.st with routeArmed := false } } r
      revert htake
      generalize takePendingAnnotations { p with st := { p.st with routeArmed := false } } r = t
      obtain ⟨p', r'⟩ := t
      rintro ⟨herrors, hroutes, hclear, hauth, hpublic, hrole⟩
      refine Or.inr ⟨herrors, hclear, r', ?_, hauth, hpublic, hrole⟩
      show p'.ctx.routes ++ [r'] = p.ctx.routes ++ [r']
      rw [hroutes]

theorem dropDanglingAuth_spec (p : Parser) :
    p.ctx.errors <+: (dropDanglingAuth p).ctx.errors
      ∧ ((dropDanglingAuth p).ctx.errors = [] →
          dropDanglingAuth p = p ∧ ParseState.secured p.st = false) := by
  have hproduces : ∀ q : Parser, Keeps q (dropProduces q)
      ∧ ((dropProduces q).ctx.errors = [] → dropProduces q = q) := by
    intro q
    rw [dropProduces]
    split
    · exact ⟨(keeps_error q _).trans (keeps_state _ rfl rfl rfl),
        fun h => absurd h (error_ne_nil q _)⟩
    · exact ⟨Keeps.refl q, fun _ => rfl⟩
  obtain ⟨hkeeps, hsame⟩ := hproduces (dropSecurity p)
  rw [dropDanglingAuth]
  -- without an error both tests have found nothing, and nothing has changed
  by_cases hp : p.st.pendingAuth = true ∨ p.st.pendingPublic = true ∨ p.st.pendingRole ≠ []
  · have herrors : (dropSecurity p).ctx.errors
        = (p.error (lit "authentication annotation must precede a route")).ctx.errors := by
      rw [dropSecurity, if_pos hp]
    refine ⟨List.IsPrefix.trans ?_ hkeeps.errors, fun h => ?_⟩
    · rw [herrors]
      exact (keeps_error p _).errors
    · have hnil := hkeeps.no_errors h
      rw [herrors] at hnil
      exact absurd hnil (error_ne_nil p _)
  · have hdrop : dropSecurity p = p := by rw [dropSecurity, if_neg hp]
    rw [hdrop] at hkeeps hsame ⊢
    refine ⟨hkeeps.errors, fun h => ⟨hsame h, ?_⟩⟩
    simp only [not_or, Bool.not_eq_true, not_not] at hp
    rw [ParseState.secured, hp.1, hp.2.1, hp.2.2]
    rfl

/-- Behind the dangling annotations a type or a service is declared, or nothing. -/
theorem parseDeclaration_spec (p : Parser) (line : Bytes) :
    Keeps p (parseDeclaration p line)
      ∨ (p.ctx.errors <+: (parseDeclaration p line).ctx.errors
        ∧ (parseDeclaration p line).st.pendingAuth = p.st.pendingAuth
        ∧ (parseDeclaration p line).st.pendingPublic = p.st.pendingPublic
        ∧ (parseDeclaration p line).st.pendingRole = p.st.pendingRole
        ∧ (parseDeclaration p line).ctx.routes = p.ctx.routes
        ∧ (p.ctx.types.length < (parseDeclaration p line).ctx.types.length
          ∨ p.ctx.services.length < (parseDeclaration p line).ctx.services.length)) := by
  have hgrows : ∀ {α : Type} (xs : List α) (x : α), xs.length < (xs ++ [x]).length := by
    intro α xs x
    rw [List.length_append]
    exact Nat.lt_succ_self _
  rw [parseDeclaration]
  split
  · rcases takeService_spec p line with h | ⟨service, h⟩
    · exact Or.inl (h.trans (keeps_state _ rfl rfl rfl))
    · rw [parseService, h]
      exact Or.inr ⟨List.prefix_refl _, rfl, rfl, rfl, rfl, Or.inr (hgrows _ _)⟩
  split
  · exact Or.inl (keeps_removed ‹_›)
  split
  · rcases openType_spec p line with h | ⟨type, st, h, hauth, hpublic, hrole⟩
    · exact Or.inl h
    · rw [h]
      exact Or.inr ⟨List.prefix_refl _, hauth, hpublic, hrole, rfl, Or.inl (hgrows _ _)⟩
  · exact Or.inl (Keeps.refl p)

theorem parseDeclaration_errors (p : Parser) (line : Bytes) :
    p.ctx.errors <+: (parseDeclaration p line).ctx.errors := by
  rcases parseDeclaration_spec p line with h | h
  · exact h.errors
  · exact h.1

theorem parseAuth_errors {p p' : Parser} {line : Bytes} (h : parseAuthAnnotation p line = some p') :
    p.ctx.errors <+: p'.ctx.errors := by
  rw [ parseAuthAnnotation] at h
  split at h
  · exact nomatch h
  · obtain rfl := Option.some.inj h
    exact (keeps_failed p _).errors
  · obtain rfl := Option.some.inj h
    exact List.prefix_refl _

/-- No error is ever taken back. -/
theorem topLevel_errors (p : Parser) (line : Bytes) :
    p.ctx.errors <+: (parseTopLevelLine p line).ctx.errors := by
  rw [parseTopLevelLine]
  split
  · exact List.prefix_refl _
  split
  · exact (keeps_transactional ‹_›).errors
  split
  · exact parseAuth_errors ‹_›
  split
  · exact (keeps_produces ‹_›).errors
  split
  · rcases parseRoute_spec p line with h | h
    · exact h.errors
    · exact h.1
  split
  · rename_i h
    rcases parseStore_spec h with h | ⟨store, rfl⟩
    · exact h.1.errors
    · exact List.prefix_refl _
  split
  · exact (keeps_repeat ‹_›).errors
  split
  · rcases parseTask_spec p line with h | ⟨task, h⟩
    · exact h.1.errors
    · rw [h]
      exact List.prefix_refl _
  split
  · exact ( keeps_routeAnnotation ‹_›).errors
  · exact (dropDanglingAuth_spec p).1.trans (parseDeclaration_errors _ line)

/-! ## Which lines a handler takes -/

theorem parseTransactional_none_iff {p : Parser} {line : Bytes} :
    parseTransactionalAnnotation p line = none ↔ line ≠ lit "$transactional" := by
  rw [ parseTransactionalAnnotation]
  split_ifs with h
  · exact ⟨fun _ => h, fun _ => rfl⟩
  all_goals exact ⟨fun hc => (nomatch hc), fun hc => absurd hc h⟩

theorem parseAuth_none_iff {p : Parser} {line : Bytes} :
    parseAuthAnnotation p line = none ↔ authAnnotation line = none := by
  rw [ parseAuthAnnotation]
  cases authAnnotation line with
  | none => exact ⟨fun _ => rfl, fun _ => rfl⟩
  | some a => cases a <;> exact ⟨fun h => (nomatch h), fun h => (nomatch h)⟩

theorem parseProduces_none_iff {p : Parser} {line : Bytes} :
    parseProducesAnnotation p line = none ↔ (lit "$produces(").isPrefixOf line = false := by
  rw [ parseProducesAnnotation]
  split
  · exact ⟨fun _ => ‹_›, fun _ => rfl⟩
  · rename_i h
    refine ⟨fun hc => ?_, fun hc => absurd hc h⟩
    split at hc
    · exact nomatch hc
    · split_ifs at hc

theorem parseStore_none_iff {p : Parser} {line : Bytes} :
    parseStoreAnnotation p line = none ↔ (lit "$store(").isPrefixOf line = false := by
  rw [ parseStoreAnnotation]
  split
  · exact ⟨fun _ => ‹_›, fun _ => rfl⟩
  · rename_i h
    refine ⟨fun hc => ?_, fun hc => absurd hc h⟩
    split at hc
    · exact nomatch hc
    · split at hc
      · exact nomatch hc
      · split at hc
        · exact nomatch hc
        · split_ifs at hc

theorem parseRepeat_none_iff {p : Parser} {line : Bytes} :
    parseRepeatAnnotation p line = none
      ↔ line ≠ lit "$on_start" ∧ (lit "$repeat(").isPrefixOf line = false := by
  rw [ parseRepeatAnnotation]
  split
  · rename_i h
    refine ⟨fun hc => ?_, fun hc => absurd h hc.1⟩
    split_ifs at hc
  rename_i h
  split
  · exact ⟨fun _ => ⟨h, ‹_›⟩, fun _ => rfl⟩
  · rename_i hrepeat
    refine ⟨fun hc => ?_, fun hc => absurd hc.2 hrepeat⟩
    split at hc
    · exact nomatch hc
    · split at hc
      · exact nomatch hc
      · split_ifs at hc

/-- A line that is no store and no signature does not skip the check. -/
theorem skipsCheck_false {st : ParseState} {line : Bytes}
    (hstore : (lit "$store(").isPrefixOf line = false) (hsig : signatureOf line = false) :
    skipsCheck st line = false := by
  rw [skipsCheck, hstore, hsig, Bool.and_false, Bool.or_false, Bool.and_false]

theorem skipsCheck_armed {st : ParseState} (h : st.routeArmed = true) (line : Bytes) :
    skipsCheck st line = false := by
  rw [skipsCheck, h, Bool.not_true, Bool.and_false, Bool.false_and]

theorem skipsCheck_auth {st : ParseState} {line : Bytes} (h : authAnnotation line ≠ none) :
    skipsCheck st line = false :=
  skipsCheck_false (Bool.eq_false_iff.mpr fun hs => h (store_not_auth hs))
    (decide_eq_false fun hs => h hs.2.2.1)

/-! ## One line -/

/-- The line is an annotation, or a failed attempt at one. -/
theorem auth_step {p p' : Parser} {line : Bytes} (h : parseAuthAnnotation p line = some p') :
    Step p line p' := by
  have hauth : authAnnotation line ≠ none := by
    intro hnone
    rw [parseAuth_none_iff.mpr hnone] at h
    exact nomatch h
  rw [ parseAuthAnnotation] at h
  split at h
  · exact nomatch h
  · rename_i e ha
    obtain rfl := Option.some.inj h
    refine .keeps (keeps_failed p e) (skipsCheck_auth hauth) fun a hok => ?_
    rw [ha] at hok
    exact nomatch hok
  · rename_i a ha
    obtain rfl := Option.some.inj h
    exact .annotated a p ha (Keeps.refl p) rfl (skipsCheck_auth hauth)

theorem store_step {p p' : Parser} (hin : p.st.inStruct = false)
    (harmed : p.st.routeArmed = false) {line : Bytes} (hno : authAnnotation line = none)
    (h : parseStoreAnnotation p line = some p') (he : p'.ctx.errors = []) : Step p line p' := by
  have hstore : (lit "$store(").isPrefixOf line = true := by
    by_contra hc
    rw [parseStore_none_iff.mpr (Bool.eq_false_iff.mpr hc)] at h
    exact nomatch h
  rcases parseStore_spec h with ⟨-, hne⟩ | ⟨store, rfl⟩
  · exact absurd he hne
  · refine .other rfl rfl rfl rfl (Or.inr (Or.inl ?_)) (Or.inl ?_) hno
    · show _ < (p.ctx.stores ++ [store]).length
      rw [List.length_append]
      exact Nat.lt_succ_self _
    · rw [skipsCheck, hin, harmed, hstore]
      rfl

theorem task_step {p : Parser} (hin : p.st.inStruct = false) (harmed : p.st.routeArmed = false)
    (htask : p.st.taskArmed = true) {line : Bytes} (hsig : signatureOf line = true)
    (hno : authAnnotation line = none) (he : (parseTask p line).ctx.errors = []) :
    Step p line (parseTask p line) := by
  rcases parseTask_spec p line with ⟨-, hne⟩ | ⟨task, h⟩
  · exact absurd he hne
  · rw [h]
    refine .other rfl rfl rfl rfl (Or.inl ?_) (Or.inl ?_) hno
    · show _ < (p.ctx.tasks ++ [task]).length
      rw [List.length_append]
      exact Nat.lt_succ_self _
    · rw [skipsCheck, hin, harmed, htask, hsig, Bool.or_comm]
      rfl

/-- Behind the dangling annotations nothing is pending any more. -/
theorem declaration_step {p : Parser} {line : Bytes} (hno : authAnnotation line = none)
    (hskip : skipsCheck p.st line = false)
    (he : (parseDeclaration (dropDanglingAuth p) line).ctx.errors = []) :
    Step p line (parseDeclaration (dropDanglingAuth p) line) := by
  have hnone : (dropDanglingAuth p).ctx.errors = [] :=
    List.prefix_nil.mp (he ▸ parseDeclaration_errors _ line)
  obtain ⟨hdrop, hclear⟩ := (dropDanglingAuth_spec p).2 hnone
  rw [hdrop]
  rcases parseDeclaration_spec p line with h | ⟨-, hauth, hpublic, hrole, hroutes, hgrown⟩
  · exact .keeps h hskip fun a ha => by rw [hno] at ha; exact nomatch ha
  · exact .other hauth hpublic hrole hroutes (Or.inr (Or.inr hgrown)) (Or.inr hclear) hno

theorem topLevel_step {p : Parser} (hin : p.st.inStruct = false) {line : Bytes}
    (he : (parseTopLevelLine p line).ctx.errors = []) :
    Step p line (parseTopLevelLine p line) := by
  revert he
  rw [parseTopLevelLine]
  split
  · rename_i hline
    subst hline
    exact fun _ => .keeps (Keeps.refl p) (skipsCheck_false rfl rfl) (fun a ha => nomatch ha)
  rename_i hline
  split
  · rename_i p' h
    have htrans : line = lit "$transactional" := by
      by_contra hne
      rw [parseTransactional_none_iff.mpr hne] at h
      exact nomatch h
    subst htrans
    exact fun _ => .keeps (keeps_transactional h) (skipsCheck_false rfl rfl)
      (fun a ha => nomatch ha)
  rename_i htrans
  split
  · exact fun _ => auth_step ‹_›
  rename_i hauth
  -- from here on the line is no security annotation
  have hno := parseAuth_none_iff.mp hauth
  have hne : ∀ a, authAnnotation line ≠ some (.ok a) := by
    intro a ha
    rw [hno] at ha
    exact nomatch ha
  split
  · rename_i p' h
    have hprod : (lit "$produces(").isPrefixOf line = true := by
      by_contra hc
      rw [parseProduces_none_iff.mpr (Bool.eq_false_iff.mpr hc)] at h
      exact nomatch h
    refine fun _ => .keeps (keeps_produces h) (skipsCheck_false ?_ ?_) hne
    · refine Bool.eq_false_iff.mpr fun hs => ?_
      rw [store_not_produces hs] at hprod
      exact nomatch hprod
    · exact decide_eq_false fun hs => by rw [hs.2.2.2.1] at hprod; exact nomatch hprod
  rename_i hprod
  split
  · rename_i harmed
    intro _
    rcases parseRoute_spec p line with h | ⟨-, hclear, r, hroutes, hauth, hpublic, hrole⟩
    · exact .keeps h (skipsCheck_armed harmed line) hne
    · exact .route r hauth hpublic hrole hroutes hclear (skipsCheck_armed harmed line) hno
  rename_i harmed
  have harmed' : p.st.routeArmed = false := Bool.eq_false_iff.mpr harmed
  split
  · exact store_step hin harmed' hno ‹_›
  rename_i hstore
  have hstore' := parseStore_none_iff.mp hstore
  split
  · rename_i p' h
    refine fun _ => .keeps (keeps_repeat h) (skipsCheck_false hstore' ?_) hne
    refine decide_eq_false fun hs => ?_
    rw [parseRepeat_none_iff.mpr hs.2.2.2.2.2] at h
    exact nomatch h
  rename_i hrepeat
  split
  · rename_i htask
    exact task_step hin harmed' htask (decide_eq_true ⟨hline,
      parseTransactional_none_iff.mp htrans, hno, parseProduces_none_iff.mp hprod, hstore',
      parseRepeat_none_iff.mp hrepeat⟩) hno
  rename_i htask
  -- a route annotation or a declaration: the check is not skipped
  have hskip : skipsCheck p.st line = false := by
    rw [skipsCheck, hstore', Bool.eq_false_iff.mpr htask, Bool.false_and, Bool.or_false,
      Bool.and_false]
  split
  · exact fun _ => .keeps ( keeps_routeAnnotation ‹_›) hskip hne
  · exact declaration_step hno hskip

/-! ## Logical lines -/

/-- What decides which handler takes a line, the line apart. -/
structure SameArms (st st' : ParseState) : Prop where
  inStruct : st'.inStruct = st.inStruct
  routeArmed : st'.routeArmed = st.routeArmed
  taskArmed : st'.taskArmed = st.taskArmed

theorem SameArms.skipsCheck {st st' : ParseState} (h : SameArms st st') (line : Bytes) :
    skipsCheck st' line = skipsCheck st line := by
  rw [GeneratorAuth.skipsCheck, GeneratorAuth.skipsCheck, h.inStruct, h.routeArmed, h.taskArmed]

theorem Passed.arms {p p' : Parser} (h : Passed p p') : SameArms p.st p'.st where
  inStruct := congrArg (·.inStruct) h.st
  routeArmed := congrArg (·.routeArmed) h.st
  taskArmed := congrArg (·.taskArmed) h.st

theorem Keeps.secured {p p' : Parser} (h : Keeps p p') :
    ParseState.secured p'.st = ParseState.secured p.st := by
  rw [ParseState.secured, ParseState.secured, h.auth, h.isPublic, h.role]

/-- A step may be seen from an earlier state that looks the same. -/
theorem Step.of_keeps {p q p' : Parser} {line : Bytes} (hk : Keeps p q)
    (harms : SameArms p.st q.st) (h : Step q line p') : Step p line p' := by
  have hskips := harms.skipsCheck line
  cases h with
  | keeps h hskip hno => exact .keeps (hk.trans h) (hskips ▸ hskip) hno
  | annotated a q' ha hq hp' hskip => exact .annotated a q' ha (hk.trans hq) hp' (hskips ▸ hskip)
  | route r hauth hpublic hrole hroutes hclear hskip hno =>
      exact .route r (hauth.trans hk.auth) (hpublic.trans hk.isPublic) (hrole.trans hk.role)
        (hk.routes ▸ hroutes) hclear (hskips ▸ hskip) hno
  | other hauth hpublic hrole hroutes hgrown hskip hno =>
      refine .other (hauth.trans hk.auth) (hpublic.trans hk.isPublic) (hrole.trans hk.role)
        (hroutes.trans hk.routes) ?_ ?_ hno
      · rw [hk.tasks, hk.stores, hk.types, hk.services] at hgrown
        exact hgrown
      · rw [hskips, hk.secured] at hskip
        exact hskip

theorem sourceLine_errors (strtold : Strtold) (p : Parser) (line : Bytes) :
    p.ctx.errors <+: (parseSourceLine strtold p line).ctx.errors := by
  rw [parseSourceLine]
  split_ifs
  · exact (passed_top p line).errors.trans (topLevel_errors _ line)
  · exact List.prefix_refl _
  · exact (keeps_errors _ p).errors
  · exact (keeps_errors _ p).errors
  · exact (keeps_close p line).errors
  · exact (keeps_bodyLine strtold p line).errors

/-- A quoted path ends with the parenthesis that closes it, or with blanks. -/
theorem parseRouteUrl_last {line word url : Bytes} (h : parseRouteUrl line word = .ok url) :
    line.getLast? ≠ some 0x3B := by
  unfold parseRouteUrl at h
  split at h
  · exact nomatch h
  rename_i c p hopen
  split at h
  · exact nomatch h
  rename_i q start hquote
  split at h
  · exact nomatch h
  dsimp only at h
  split at h
  · exact nomatch h
  split at h
  · exact nomatch h
  rename_i d rest hclose
  split at h
  · exact nomatch h
  split at h
  · exact nomatch h
  rename_i e tail hparen
  split at h
  · exact nomatch h
  rename_i he
  split at h
  · exact nomatch h
  rename_i hblank
  simp only [ne_eq, not_not] at he hblank
  subst he
  -- each scan leaves an end of the line
  have hsuffix : (0x29 :: tail : Bytes) <:+ line := by
    have h1 : c :: p <:+ line := hopen ▸ List.dropWhile_suffix _
    have h2 : q :: start <:+ p := hquote ▸ List.dropWhile_suffix _
    have h3 : d :: rest <:+ start := hclose ▸ List.dropWhile_suffix _
    have h4 : (0x29 :: tail : Bytes) <:+ rest := hparen ▸ List.dropWhile_suffix _
    exact h4.trans (((List.suffix_cons d rest).trans h3).trans
      (((List.suffix_cons q start).trans h2).trans ((List.suffix_cons c p).trans h1)))
  obtain ⟨front, rfl⟩ := hsuffix
  rw [List.getLast?_append_of_ne_nil _ (by simp)]
  have hall : ∀ x ∈ tail, x = 0x20 ∨ x = 0x09 := by
    intro x hx
    have hdrop := List.dropWhile_eq_nil_iff.mp hblank x hx
    simpa using hdrop
  intro hlast
  have hmem : (0x3B : Byte) ∈ (0x29 :: tail : Bytes) := List.mem_of_getLast? hlast
  rcases List.mem_cons.mp hmem with hc | hc
  · exact absurd hc (by decide)
  · rcases hall _ hc with hc | hc <;> exact absurd hc (by decide)

/-- The first word of a text goes on as the text begins. -/
theorem splitOnP_start {p : Byte → Bool} {w : Bytes} (hw : ∀ c ∈ w, p c = false) (t : Bytes) :
    ∃ word words, (w ++ t).splitOnP p = (w ++ word) :: words := by
  induction w with
  | nil =>
      cases h : t.splitOnP p with
      | nil => exact absurd h (List.splitOnP_ne_nil p t)
      | cons word words => exact ⟨word, words, h⟩
  | cons c w ih =>
      obtain ⟨word, words, h⟩ := ih fun d hd => hw d (List.mem_cons_of_mem c hd)
      refine ⟨word, words, ?_⟩
      rw [List.cons_append, List.splitOnP_cons_eq_if_modifyHead, if_neg, h]
      · rfl
      · rw [hw c List.mem_cons_self]
        exact Bool.false_ne_true

/-- A line whose first word is no field annotation has none at all. -/
theorem lineOnlyAnnotations_role (t : Bytes) : lineOnlyAnnotations (lit "$role(" ++ t) = none := by
  have hspace : (lit "$role(").any isSpace = false := rfl
  obtain ⟨word, words, hsplit⟩ := splitOnP_start
    (fun c hc => Bool.eq_false_iff.mpr (List.any_eq_false.mp hspace c hc)) t
  have hwords : ∃ words, lineSplitWords (lit "$role(" ++ t) GENERATOR_MAX_TOKENS
      = (lit "$role(" ++ word) :: words := by
    refine ⟨(words.filter (· ≠ [])).take 7, ?_⟩
    rw [lineSplitWords, hsplit]
    rfl
  obtain ⟨words, hwords⟩ := hwords
  have hflag : fieldFlagFromWord (lit "$role(" ++ word) = none := by
    rw [fieldFlagFromWord]
    split
    · rfl
    · rfl
  rw [lineOnlyAnnotations, hwords]
  show allFlags _ = none
  rw [allFlags, hflag]

/-- Inside a type a security annotation is an error. -/
theorem annotation_in_type {strtold : Strtold} {p : Parser} (hin : p.st.inStruct = true)
    {line : Bytes} {a : AuthAnnotation} (ha : authAnnotation line = some (.ok a)) :
    (parseSourceLine strtold p line).ctx.errors ≠ [] := by
  -- none of the handlers of a type takes it, and it is no field either
  have hrefused : ∀ l : Bytes, parsePick p l = none → ruleOf l = none →
      parseReferencesAnnotation p l = none → l.getLast? ≠ some 0x3B →
      lineOnlyAnnotations l = none → (parseTypeBodyLine strtold p l).ctx.errors ≠ [] := by
    intro l hpick hrule href hlast honly
    have hr : ruleAnnotation strtold p l = none := by rw [ ruleAnnotation, hrule]
    rw [parseTypeBodyLine, hpick, hr, href, fieldLineReady, if_pos hlast, honly]
    exact error_ne_nil p _
  have hline : ∀ l : Bytes, l.head? = some 0x24 →
      (parseTypeBodyLine strtold p l).ctx.errors ≠ [] →
      (parseSourceLine strtold p l).ctx.errors ≠ [] := by
    intro l hhead hbody
    have hnil : l ≠ [] := by
      rintro rfl
      exact nomatch hhead
    have hopen : l ≠ lit "\x7b" := by
      rintro rfl
      exact absurd hhead (by decide)
    have hclose : l.head? ≠ some 0x7D := by
      rw [hhead]
      decide
    rw [parseSourceLine, hin, if_neg (by decide), if_neg hnil, if_neg hclose]
    split
    · exact error_ne_nil p _
    · exact hbody
  rw [ authAnnotation] at ha
  split_ifs at ha with h1 h2 h3
  · subst h1
    exact hline _ rfl (hrefused _ rfl rfl rfl (by decide) (by decide))
  · subst h2
    exact hline _ rfl (hrefused _ rfl rfl rfl (by decide) (by decide))
  · split at ha
    · exact nomatch ha
    · rename_i role hurl
      have hlast := parseRouteUrl_last hurl
      obtain ⟨t, rfl⟩ := List.isPrefixOf_iff_prefix.mp (Bool.not_eq_false _ ▸ h3)
      exact hline _ rfl (hrefused _ rfl rfl rfl hlast (lineOnlyAnnotations_role t))

theorem sourceLine_step {strtold : Strtold} {p : Parser} {line : Bytes}
    (he : (parseSourceLine strtold p line).ctx.errors = []) :
    Step p line (parseSourceLine strtold p line) := by
  cases hin : p.st.inStruct with
  | true =>
      have hno : ∀ a, authAnnotation line ≠ some (.ok a) :=
        fun a ha => annotation_in_type hin ha he
      have hskip : skipsCheck p.st line = false := by rw [skipsCheck, hin]; rfl
      have hkeeps : Keeps p (parseSourceLine strtold p line) := by
        rw [parseSourceLine, hin, if_neg (by decide)]
        split_ifs
        · exact Keeps.refl p
        · exact (keeps_errors _ p).trans (keeps_state _ rfl rfl rfl)
        · exact (keeps_errors _ p).trans (keeps_state _ rfl rfl rfl)
        · exact keeps_close p line
        · exact keeps_bodyLine strtold p line
      exact .keeps hkeeps hskip hno
  | false =>
      rw [parseSourceLine, if_pos hin] at he ⊢
      have harms := (passed_top p line).arms
      exact Step.of_keeps (passed_top p line).keeps harms (topLevel_step (harms.inStruct.trans hin) he)

/-! ## Events -/

theorem Keeps.event {p p' : Parser} (h : Keeps p p') (line : Bytes) :
    lineEvent p.ctx p'.ctx line = match authAnnotation line with
      | some (.ok a) => some (.annotated a)
      | _ => none := by
  rw [lineEvent, h.routes, h.tasks, h.stores, h.types, h.services, if_neg (Nat.lt_irrefl _),
    if_neg (by simp)]

/-- The flags say which of `above` are pending. -/
structure Awaits (st : ParseState) (above : List AuthAnnotation) : Prop where
  auth : st.pendingAuth = true ↔ .authenticated ∈ above
  isPublic : st.pendingPublic = true ↔ .isPublic ∈ above
  role : ∀ name, .role name ∈ above → st.pendingRole = name ∧ name ≠ []
  named : st.pendingRole ≠ [] → .role st.pendingRole ∈ above

theorem secured_false_iff {st : ParseState} : ParseState.secured st = false
    ↔ st.pendingAuth = false ∧ st.pendingPublic = false ∧ st.pendingRole = [] := by
  rw [ParseState.secured, Bool.or_eq_false_iff, Bool.or_eq_false_iff, and_assoc, bne_eq_false_iff_eq]

theorem secured_iff {st : ParseState} : ParseState.secured st = true
    ↔ st.pendingAuth = true ∨ st.pendingPublic = true ∨ st.pendingRole ≠ [] := by
  rw [ParseState.secured, Bool.or_eq_true, Bool.or_eq_true, or_assoc, bne_iff_ne]

theorem Awaits.nil {st : ParseState} (h : ParseState.secured st = false) : Awaits st [] := by
  obtain ⟨hauth, hpublic, hrole⟩ := secured_false_iff.mp h
  refine ⟨?_, ?_, fun name hn => (nomatch hn), fun hne => absurd hrole hne⟩
  · rw [hauth]
    exact ⟨fun hc => (nomatch hc), fun hc => (nomatch hc)⟩
  · rw [hpublic]
    exact ⟨fun hc => (nomatch hc), fun hc => (nomatch hc)⟩

theorem Awaits.eq_nil {st : ParseState} {above : List AuthAnnotation} (h : Awaits st above)
    (hs : ParseState.secured st = false) : above = [] := by
  obtain ⟨hauth, hpublic, hrole⟩ := secured_false_iff.mp hs
  refine List.eq_nil_iff_forall_not_mem.mpr fun a ha => ?_
  cases a with
  | authenticated =>
      rw [h.auth.mpr ha] at hauth
      exact nomatch hauth
  | isPublic =>
      rw [h.isPublic.mpr ha] at hpublic
      exact nomatch hpublic
  | role name =>
      obtain ⟨heq, hne⟩ := h.role name ha
      exact hne (heq.symm.trans hrole)

theorem Awaits.keeps {p p' : Parser} {above : List AuthAnnotation} (hk : Keeps p p')
    (h : Awaits p.st above) : Awaits p'.st above := by
  obtain ⟨hauth, hpublic, hrole, hnamed⟩ := h
  rw [← hk.auth] at hauth
  rw [← hk.isPublic] at hpublic
  rw [← hk.role] at hrole hnamed
  exact ⟨hauth, hpublic, hrole, hnamed⟩

/-- An annotation that overwrites no other one is awaited too. -/
theorem Awaits.pend {st : ParseState} {above : List AuthAnnotation} (h : Awaits st above)
    {a : AuthAnnotation} (hname : ∀ name, a = .role name → name ≠ []
      ∧ (st.pendingRole = [] ∨ st.pendingRole = name)) : Awaits (st.pend a) (a :: above) := by
  cases a with
  | authenticated =>
      refine ⟨⟨fun _ => List.mem_cons_self, fun _ => rfl⟩, ?_, fun name hn => ?_, fun hne => ?_⟩
      · rw [List.mem_cons, or_iff_right (by exact fun hc => nomatch hc)]
        exact h.isPublic
      · rcases List.mem_cons.mp hn with hc | hn
        · exact nomatch hc
        · exact h.role name hn
      · exact List.mem_cons_of_mem _ (h.named hne)
  | isPublic =>
      refine ⟨?_, ⟨fun _ => List.mem_cons_self, fun _ => rfl⟩, fun name hn => ?_, fun hne => ?_⟩
      · rw [List.mem_cons, or_iff_right (by exact fun hc => nomatch hc)]
        exact h.auth
      · rcases List.mem_cons.mp hn with hc | hn
        · exact nomatch hc
        · exact h.role name hn
      · exact List.mem_cons_of_mem _ (h.named hne)
  | role name =>
      obtain ⟨hne, hsame⟩ := hname name rfl
      refine ⟨?_, ?_, fun other hn => ?_, fun _ => List.mem_cons_self⟩
      · rw [List.mem_cons, or_iff_right (by exact fun hc => nomatch hc)]
        exact h.auth
      · rw [List.mem_cons, or_iff_right (by exact fun hc => nomatch hc)]
        exact h.isPublic
      · rcases List.mem_cons.mp hn with hc | hn
        · obtain rfl := AuthAnnotation.role.inj hc
          exact ⟨rfl, hne⟩
        · obtain ⟨heq, hother⟩ := h.role other hn
          rcases hsame with hsame | hsame
          · exact absurd (heq.symm.trans hsame) hother
          · exact ⟨hsame.symm.trans heq, hother⟩

/-- A waiting role that is not the one behind it cannot reach the same route. -/
theorem Reaches.role_eq {x y : Bytes} {es : List Event} (hx : Reaches (.role x) es)
    (hy : Reaches (.role y) es) : x = y := by
  obtain ⟨r, hr, hrx, -⟩ := hx
  obtain ⟨r', hr', hry, -⟩ := hy
  rw [hr] at hr'
  obtain rfl := Event.route.inj (Option.some.inj hr')
  exact hrx.symm.trans hry

/-- What `BindsOwn` says of the rest of a file, `above` being the annotations that
    are still waiting. -/
structure Holds (above : List AuthAnnotation) (es : List Event) : Prop where
  waiting : ∀ a ∈ above, Reaches a es
  applied : Applied es
  explained : Explained above es

theorem holds_nil_iff {above : List AuthAnnotation} : Holds above [] ↔ above = [] := by
  constructor
  · intro h
    refine List.eq_nil_iff_forall_not_mem.mpr fun a ha => ?_
    obtain ⟨r, hr, -⟩ := h.waiting a ha
    exact nomatch hr
  · rintro rfl
    exact ⟨fun a ha => (nomatch ha), trivial, trivial⟩

theorem holds_annotation_iff {above : List AuthAnnotation} {a : AuthAnnotation}
    {es : List Event} : Holds above (.annotated a :: es) ↔ Holds (a :: above) es := by
  constructor
  · rintro ⟨hw, ⟨ha, happ⟩, he⟩
    refine ⟨fun b hb => ?_, happ, he⟩
    rcases List.mem_cons.mp hb with rfl | hb
    · exact ha
    · exact hw b hb
  · rintro ⟨hw, happ, he⟩
    exact ⟨fun b hb => hw b (List.mem_cons_of_mem a hb), ⟨hw a List.mem_cons_self, happ⟩, he⟩

/-- A route that has just what is awaited settles it. -/
theorem holds_route_iff {st : ParseState} {above : List AuthAnnotation} (h : Awaits st above)
    {r : ParsedRoute} (hauth : r.authenticated = st.pendingAuth)
    (hpublic : r.publicRoute = st.pendingPublic) (hrole : r.role = st.pendingRole)
    {es : List Event} : Holds above (.route r :: es) ↔ Holds [] es := by
  have hiff : ∀ a, appliesTo a r ↔ a ∈ above := by
    intro a
    cases a with
    | authenticated =>
        show r.authenticated = true ↔ _
        rw [hauth]
        exact h.auth
    | isPublic =>
        show r.publicRoute = true ↔ _
        rw [hpublic]
        exact h.isPublic
    | role name =>
        show r.role = name ∧ name ≠ [] ↔ _
        rw [hrole]
        refine ⟨?_, h.role name⟩
        rintro ⟨rfl, hne⟩
        exact h.named hne
  constructor
  · rintro ⟨-, happ, -, he⟩
    exact ⟨fun a ha => (nomatch ha), happ, he⟩
  · rintro ⟨-, happ, he⟩
    exact ⟨fun a ha => ⟨r, rfl, (hiff a).mpr ha⟩, happ, fun a ha => (hiff a).mp ha, he⟩

theorem holds_other_iff {above : List AuthAnnotation} {es : List Event} :
    Holds above (.other :: es) ↔ above = [] ∧ Holds [] es := by
  constructor
  · rintro ⟨hw, happ, he⟩
    refine ⟨List.eq_nil_iff_forall_not_mem.mpr fun a ha => ?_,
      fun a ha => (nomatch ha), happ, he⟩
    obtain ⟨r, hr, -⟩ := hw a ha
    exact nomatch hr
  · rintro ⟨rfl, -, happ, he⟩
    exact ⟨fun a ha => (nomatch ha), happ, he⟩

theorem role_ne_nil {line : Bytes} {name : Bytes}
    (h : authAnnotation line = some (.ok (.role name))) : name ≠ [] := by
  rw [ authAnnotation] at h
  split_ifs at h
  · cases h
  · cases h
  split at h
  · exact nomatch h
  · split_ifs at h with hrole
    · exact nomatch h
    rintro rfl
    obtain rfl := AuthAnnotation.role.inj (Except.ok.inj (Option.some.inj h))
    exact hrole ⟨by decide, by decide⟩

/-- **One line.**  Where the flags keep to their declaration, what is said of the
    rest of the file before the line is said of it behind the line; where they go
    astray, the annotations do not bind to their own declarations. -/
theorem step_holds {p p' : Parser} {line : Bytes} (hstep : Step p line p')
    {above : List AuthAnnotation} (h : Awaits p.st above) :
    (diverts p.st line = false → ∃ above', Awaits p'.st above'
        ∧ ∀ es, Holds above ((lineEvent p.ctx p'.ctx line).toList ++ es) ↔ Holds above' es)
      ∧ (diverts p.st line = true →
        ∀ es, ¬ Holds above ((lineEvent p.ctx p'.ctx line).toList ++ es)) := by
  cases hstep with
  | keeps hk hskip hno =>
      -- no declaration and no annotation: nothing is said of the line
      have hevent : lineEvent p.ctx p'.ctx line = none := by
        rw [hk.event]
        split
        · exact absurd ‹_› (hno _)
        · rfl
      have hrole : overwritesRole p.st line = false := by
        rw [overwritesRole]
        split
        · exact absurd ‹_› (hno _)
        · rfl
      rw [hevent, diverts, hskip, hrole, Bool.and_false, Bool.false_or]
      exact ⟨fun _ => ⟨above, h.keeps hk, fun es => Iff.rfl⟩, fun hc => nomatch hc⟩
  | annotated a q ha hq hp' hskip =>
      have hevent : lineEvent p.ctx p'.ctx line = some (.annotated a) := by
        rw [hp']
        show lineEvent p.ctx q.ctx line = _
        rw [hq.event, ha]
      rw [hevent, diverts, hskip, Bool.and_false, Bool.false_or]
      refine ⟨fun hdiv => ⟨a :: above, ?_, fun es => holds_annotation_iff⟩, fun hdiv es hh => ?_⟩
      · rw [hp']
        refine (h.keeps hq).pend fun name hname => ?_
        subst hname
        refine ⟨role_ne_nil ha, ?_⟩
        rw [overwritesRole, ha] at hdiv
        rw [hq.role]
        rw [Bool.and_eq_false_iff, bne_eq_false_iff_eq, bne_eq_false_iff_eq] at hdiv
        exact hdiv
      · -- the role that is overwritten would have to reach the same route
        rw [overwritesRole, ha] at hdiv
        split at hdiv
        · rename_i name heq
          obtain rfl := Except.ok.inj (Option.some.inj heq)
          rw [Bool.and_eq_true, bne_iff_ne, bne_iff_ne] at hdiv
          have hold : Reaches (.role p.st.pendingRole) es := hh.waiting _ (h.named hdiv.1)
          exact hdiv.2 (hold.role_eq hh.applied.1)
        · exact nomatch hdiv
  | route r hauth hpublic hrole hroutes hclear hskip hno =>
      have hevent : lineEvent p.ctx p'.ctx line = some (.route r) := by
        rw [lineEvent, hroutes, if_pos, List.getLast?_concat]
        · rfl
        · rw [List.length_append]
          exact Nat.lt_succ_self _
      have hover : overwritesRole p.st line = false := by rw [overwritesRole, hno]
      rw [hevent, diverts, hskip, hover, Bool.and_false, Bool.false_or]
      exact ⟨fun _ => ⟨[], Awaits.nil hclear, fun es => holds_route_iff h hauth hpublic hrole⟩,
        fun hc => nomatch hc⟩
  | other hauth hpublic hrole hroutes hgrown hskip hno =>
      have hevent : lineEvent p.ctx p'.ctx line = some .other := by
        rw [lineEvent, hroutes, if_neg (Nat.lt_irrefl _), if_pos hgrown]
      have hover : overwritesRole p.st line = false := by rw [overwritesRole, hno]
      rw [hevent, diverts, hover, Bool.or_false]
      have hsame : ParseState.secured p'.st = ParseState.secured p.st := by
        rw [ParseState.secured, ParseState.secured, hauth, hpublic, hrole]
      cases hs : ParseState.secured p.st with
      | false =>
          -- nothing was pending, so nothing could bind to the wrong one
          obtain rfl := h.eq_nil hs
          refine ⟨fun _ => ⟨[], Awaits.nil (hsame.trans hs), fun es => ?_⟩, fun hc => nomatch hc⟩
          exact holds_other_iff.trans (and_iff_right rfl)
      | true =>
          -- a pending flag stays pending behind what it stood above
          have hskips : skipsCheck p.st line = true := by
            rcases hskip with hskip | hskip
            · exact hskip
            · rw [hs] at hskip
              exact nomatch hskip
          rw [hskips]
          refine ⟨fun hc => (nomatch hc), fun _ es hh => ?_⟩
          have hnil := (holds_other_iff.mp hh).1
          subst hnil
          rcases (secured_iff.mp hs) with hc | hc | hc
          · exact nomatch h.auth.mp hc
          · exact nomatch h.isPublic.mp hc
          · exact nomatch h.named hc

/-! ## Files -/

/-- Taking a physical line changes nothing that is pending or declared. -/
theorem takeLine_keeps (r : Reader) (text : Bytes) : Keeps r.parser (takeLine r text).1.parser := by
  unfold takeLine
  dsimp only
  split
  · exact ⟨List.prefix_append _ _, rfl, rfl, rfl, rfl, rfl, rfl, rfl, rfl⟩
  · split
    · split
      · exact ⟨List.prefix_append _ _, rfl, rfl, rfl, rfl, rfl, rfl, rfl, rfl⟩
      · split
        · split <;> exact keeps_state _ rfl rfl rfl
        · split <;> exact keeps_state _ rfl rfl rfl
    · exact keeps_state _ rfl rfl rfl

theorem readLine_errors (strtold : Strtold) (r : Reader) (text : Bytes) :
    r.parser.ctx.errors <+: (readLine strtold r text).parser.ctx.errors := by
  have htake := takeLine_keeps r text
  rw [readLine]
  split
  · rename_i heq
    rw [heq] at htake
    exact htake.errors
  · rename_i r' lineno line heq
    rw [heq] at htake
    exact htake.errors.trans (sourceLine_errors strtold
      { r'.parser with st := { r'.parser.st with lineno := lineno } } line)

theorem readLines_errors (strtold : Strtold) (texts : List Bytes) :
    ∀ r : Reader, r.parser.ctx.errors
      <+: (texts.foldl (readLine strtold) r).parser.ctx.errors := by
  induction texts with
  | nil => exact fun r => List.prefix_refl _
  | cons text texts ih => exact fun r => (readLine_errors strtold r text).trans (ih _)

/-- One physical line. -/
theorem text_holds {strtold : Strtold} {r : Reader} {text : Bytes}
    (he : (readLine strtold r text).parser.ctx.errors = []) {above : List AuthAnnotation}
    (h : Awaits r.parser.st above) :
    (textDiverts r text = false → ∃ above', Awaits (readLine strtold r text).parser.st above'
        ∧ ∀ es, Holds above ((textEvent strtold r text).toList ++ es) ↔ Holds above' es)
      ∧ (textDiverts r text = true →
        ∀ es, ¬ Holds above ((textEvent strtold r text).toList ++ es)) := by
  have htake := takeLine_keeps r text
  rw [textDiverts, textEvent]
  rw [readLine] at he ⊢
  revert he htake
  generalize takeLine r text = t
  obtain ⟨r', line⟩ := t
  intro he htake
  cases line with
  | none =>
      exact ⟨fun _ => ⟨above, h.keeps htake, fun es => Iff.rfl⟩, fun hc => nomatch hc⟩
  | some line =>
      obtain ⟨lineno, line⟩ := line
      have hstart : Keeps r.parser { r'.parser with st := { r'.parser.st with lineno := lineno } } :=
        htake.trans (keeps_state _ rfl rfl rfl)
      have hholds := step_holds (sourceLine_step he) (h.keeps hstart)
      refine ⟨fun hdiv => ?_, hholds.2⟩
      obtain ⟨above', ha, hiff⟩ := hholds.1 hdiv
      exact ⟨above', ⟨ha.auth, ha.isPublic, ha.role, ha.named⟩, hiff⟩

/-- All lines. -/
theorem texts_hold {strtold : Strtold} (texts : List Bytes) :
    ∀ {r : Reader} {above : List AuthAnnotation}, Awaits r.parser.st above →
      (texts.foldl (readLine strtold) r).parser.ctx.errors = [] →
      ParseState.secured (texts.foldl (readLine strtold) r).parser.st = false →
      (Holds above (events strtold r texts)
        ↔ EveryStep (readLine strtold) (fun r text => textDiverts r text = false) r texts) := by
  induction texts with
  | nil =>
      intro r above h _ hs
      exact ⟨fun _ => trivial, fun _ => holds_nil_iff.mpr (h.eq_nil hs)⟩
  | cons text texts ih =>
      intro r above h he hs
      -- errors stay, so there was none behind the first line
      have hfirst : (readLine strtold r text).parser.ctx.errors = [] :=
        List.prefix_nil.mp (he ▸ readLines_errors strtold texts (readLine strtold r text))
      obtain ⟨hkeep, hstray⟩ := text_holds hfirst h
      rw [events, EveryStep]
      cases hdiv : textDiverts r text with
      | true => exact ⟨fun hh => absurd hh (hstray hdiv _), fun hh => nomatch hh.1⟩
      | false =>
          obtain ⟨above', ha, hiff⟩ := hkeep hdiv
          rw [hiff, ih ha he hs]
          exact ⟨fun hh => ⟨rfl, hh⟩, fun hh => hh.2⟩

/-- The routes of a list of events. -/
def Event.route? : Event → Option ParsedRoute
  | .route r => some r
  | _ => none

theorem Step.routes {p p' : Parser} {line : Bytes} (h : Step p line p') :
    p'.ctx.routes
      = p.ctx.routes ++ (lineEvent p.ctx p'.ctx line).toList.filterMap Event.route? := by
  have hnone : ∀ {e : Option Event}, p'.ctx.routes = p.ctx.routes →
      lineEvent p.ctx p'.ctx line = e → (∀ r, e ≠ some (.route r)) →
      p'.ctx.routes = p.ctx.routes ++ e.toList.filterMap Event.route? := by
    intro e hroutes _ he
    rw [hroutes]
    cases e with
    | none => exact (List.append_nil _).symm
    | some e =>
        cases e with
        | annotated a => exact (List.append_nil _).symm
        | other => exact (List.append_nil _).symm
        | route r => exact absurd rfl (he r)
  have hkept : ∀ {q : Parser}, Keeps p q → p'.ctx = q.ctx → p'.ctx.routes
      = p.ctx.routes ++ (lineEvent p.ctx p'.ctx line).toList.filterMap Event.route? := by
    intro q hq hctx
    refine hnone (by rw [hctx, hq.routes]) rfl fun r hr => ?_
    rw [hctx, hq.event] at hr
    split at hr
    · exact nomatch Option.some.inj hr
    · exact nomatch hr
  cases h with
  | keeps hk hskip hno => exact hkept hk rfl
  | annotated a q ha hq hp' hskip => exact hkept hq (by rw [hp'])
  | route r hauth hpublic hrole hroutes hclear hskip hno =>
      rw [lineEvent, hroutes, if_pos, List.getLast?_concat]
      · rfl
      · rw [List.length_append]
        exact Nat.lt_succ_self _
  | other hauth hpublic hrole hroutes hgrown hskip hno =>
      refine hnone hroutes rfl fun r hr => ?_
      rw [lineEvent, hroutes, if_neg (Nat.lt_irrefl _), if_pos hgrown] at hr
      exact nomatch Option.some.inj hr

theorem texts_routes {strtold : Strtold} (texts : List Bytes) :
    ∀ {r : Reader}, (texts.foldl (readLine strtold) r).parser.ctx.errors = [] →
      (texts.foldl (readLine strtold) r).parser.ctx.routes
        = r.parser.ctx.routes ++ (events strtold r texts).filterMap Event.route? := by
  induction texts with
  | nil => exact fun _ => (List.append_nil _).symm
  | cons text texts ih =>
      intro r he
      have hfirst : (readLine strtold r text).parser.ctx.errors = [] :=
        List.prefix_nil.mp (he ▸ readLines_errors strtold texts (readLine strtold r text))
      have htake := takeLine_keeps r text
      have hstep : (readLine strtold r text).parser.ctx.routes
          = r.parser.ctx.routes
            ++ (textEvent strtold r text).toList.filterMap Event.route? := by
        rw [textEvent]
        rw [readLine] at hfirst ⊢
        revert hfirst htake
        generalize takeLine r text = t
        obtain ⟨r', line⟩ := t
        intro hfirst htake
        cases line with
        | none =>
            refine htake.routes.trans (List.append_nil _).symm
        | some line =>
            obtain ⟨lineno, line⟩ := line
            have hroutes := (sourceLine_step hfirst).routes
            rw [show r.parser.ctx.routes = r'.parser.ctx.routes from htake.routes.symm]
            exact hroutes
      rw [events, List.filterMap_append, ← List.append_assoc, ← hstep]
      exact ih he

theorem holds_iff {es : List Event} : Holds [] es ↔ BindsOwn es :=
  ⟨fun h => ⟨h.applied, h.explained⟩, fun h => ⟨fun _ ha => (nomatch ha), h.1, h.2⟩⟩

/-- An accepted file has no error at its last line, and nothing is pending there. -/
theorem accepted_end {strtold : Strtold} {ctx : Generator} {src : Bytes}
    (h : (generatorParseSource strtold ctx src).errors = []) :
    (readLines strtold ctx src).parser.ctx.errors = []
      ∧ ParseState.secured (readLines strtold ctx src).parser.st = false
      ∧ (generatorParseSource strtold ctx src).routes
        = (readLines strtold ctx src).parser.ctx.routes := by
  rw [generatorParseSource] at h ⊢
  split at h
  · simp at h
  rename_i hnul
  rw [if_neg hnul]
  dsimp only at h ⊢
  generalize readLines strtold ctx src = r at h ⊢
  -- a signature that is still open at the end is an error
  by_cases hsig : r.signature = []
  · rw [if_neg (not_not.mpr hsig)] at h ⊢
    have hkeeps : Keeps r.parser (reportUnfinished r.parser
        ((sourceLines src).length > GENERATOR_MAX_LINES)) := keeps_errors _ _
    refine ⟨hkeeps.no_errors h, Bool.eq_false_iff.mpr fun hs => ?_, hkeeps.routes⟩
    refine errors_ne_nil r.parser (fun hnil => ?_) h
    rw [List.map_eq_nil_iff, List.filter_eq_nil_iff] at hnil
    exact hnil (ParseState.secured r.parser.st,
      lit "authentication annotation without endpoint") (by simp [unfinished, ParseState.secured]) hs
  · rw [if_pos hsig] at h
    exact absurd ((keeps_errors _ _).no_errors h) (by simp)

/-- No line of a file leads the pending flags astray. -/
def NeverDiverts (strtold : Strtold) (ctx : Generator) (src : Bytes) : Prop :=
  EveryStep (readLine strtold) (fun r text => textDiverts r text = false) (startFile ctx)
    ((sourceLines src).take GENERATOR_MAX_LINES)

/-- **Security annotations bind to their own declarations** in an accepted file
    if and only if none is pending at a `$store` line or at the signature of a
    task, and no `$role` meets another role that is pending. -/
theorem binds_own_iff (strtold : Strtold) (ctx : Generator) (src : Bytes)
    (h : (generatorParseSource strtold ctx src).errors = []) :
    (generatorParseSource strtold ctx src).routes
        = ctx.routes ++ (fileEvents strtold ctx src).filterMap Event.route?
      ∧ (BindsOwn (fileEvents strtold ctx src) ↔ NeverDiverts strtold ctx src) := by
  obtain ⟨herrors, hclear, hroutes⟩ := accepted_end h
  exact ⟨hroutes.trans (texts_routes _ herrors),
    holds_iff.symm.trans (texts_hold _ (Awaits.nil rfl) herrors hclear)⟩

/-- `strtold` on a text without a number. -/
def noNumber : Strtold := fun text => ⟨.finite 0, text, false, false⟩

/-- A public route is what the file says it is. -/
theorem binds_own_public :
    BindsOwn (fileEvents noNumber (generatorBeginFile {} (lit "hello.c"))
      (lit "$public\n$get(\"/x\")\nstr hello(void)\n")) := by
  have haccepted : (generatorParseSource noNumber (generatorBeginFile {} (lit "hello.c"))
      (lit "$public\n$get(\"/x\")\nstr hello(void)\n")).errors = [] := by decide +kernel
  refine (binds_own_iff noNumber _ _ haccepted).2.mpr ?_
  rw [NeverDiverts]
  decide +kernel

/-- A `$public` above a task makes the route behind the task public, and the
    generator accepts the file. -/
theorem not_binds_own_task :
    (runGenerator noNumber [(lit "hello.c",
        lit "$public\n$on_start\nvoid boot(void);\n$get(\"/x\")\nstr hello(void)\n")]).errors = []
      ∧ ¬ BindsOwn (fileEvents noNumber (generatorBeginFile {} (lit "hello.c"))
        (lit "$public\n$on_start\nvoid boot(void);\n$get(\"/x\")\nstr hello(void)\n")) := by
  refine ⟨by decide +kernel, ?_⟩
  have hevents : fileEvents noNumber (generatorBeginFile {} (lit "hello.c"))
      (lit "$public\n$on_start\nvoid boot(void);\n$get(\"/x\")\nstr hello(void)\n")
      = [.annotated .isPublic, .other, .route {
          method := lit "GET", url := lit "/x", functionName := lit "hello"
          returnType := lit "str", params := [], line := 5, produces := []
          fileIndex := 0, collection := 0, publicRoute := true }] := by decide +kernel
  rw [hevents]
  rintro ⟨⟨⟨r, hr, -⟩, -⟩, -⟩
  exact nomatch Option.some.inj hr

end GeneratorAuth

import Gargantua.GuardTokens
import Gargantua.GeneratorAuth

/-! # `return` inside `$transaction`

    `guard_transaction` reads the words and braces of a source line by line and
    keeps the depth, a stack of the transactions that are open and whether one
    was announced.  Whatever lines a signature is joined of, and whatever else is
    parsed and reported between two lines, what it keeps is what the scanner of marked
    blocks keeps on the tokens of the whole source.  So it reports each `return` in a
    transaction, and no other. -/

namespace GuardRuns

open RouteGenerator hiding ParsedRoute
open CString CLexing GeneratorText GeneratorSource GeneratorFields GeneratorFile GeneratorAuth Blocks
open StripComments GuardTokens

/-! ## What is kept -/

/-- The message. -/
def returnError : Bytes := lit "do not use return inside $transaction; use $throw or $transactional"

/-- How often it was reported. -/
def returnCount (errors : List GeneratorError) : Nat := errors.countP fun e => e.message = returnError

/-- What `guard_transaction` keeps. -/
def guardOf (p : Parser) : Guard :=
  ⟨p.st.braceDepth, p.st.transactionDepths, p.st.transactionBlockArmed, returnCount p.ctx.errors⟩

/-- Tokens are read. -/
def readTokens (g : Guard) (tokens : List (Token Bytes)) : Guard :=
  g.run (lit "$transaction") (lit "return") 16 tokens

theorem readTokens_append (g : Guard) (ts us : List (Token Bytes)) :
    readTokens g (ts ++ us) = readTokens (readTokens g ts) us := Guard.run_append ..

/-- A message with another character at the start, or at another place. -/
theorem ne_returnError {m : Bytes} {n : Nat} {c : Byte} (hc : returnError[n]? = some c)
    (hm : (m[n]? == some c) = false) : m ≠ returnError := by
  rintro rfl
  rw [hc, beq_self_eq_true] at hm
  cases hm

theorem ne_first {m : Bytes} (hm : (m[0]? == some 0x64) = false) : m ≠ returnError := ne_returnError (by decide) hm

theorem ne_second {m : Bytes} (hm : (m[1]? == some 0x6F) = false) : m ≠ returnError := ne_returnError (by decide) hm

/-- Another message. -/
theorem guardOf_error (p : Parser) {message : Bytes} (h : message ≠ returnError) :
    guardOf (p.error message) = guardOf p := by
  have hcount : returnCount (p.error message).ctx.errors = returnCount p.ctx.errors := by
    show returnCount (p.ctx.errors ++ [⟨p.st.lineno, message⟩]) = _
    simp [returnCount, h]
  rw [guardOf, hcount]
  rfl

/-- The message. -/
theorem guardOf_return (p : Parser) :
    guardOf (p.error returnError) = { guardOf p with count := (guardOf p).count + 1 } := by
  have hcount : returnCount (p.error returnError).ctx.errors = returnCount p.ctx.errors + 1 := by
    show returnCount (p.ctx.errors ++ [⟨p.st.lineno, returnError⟩]) = _
    simp [returnCount]
  rw [guardOf, hcount]
  rfl

/-! ## A line -/

/-- `guard_transaction` at a token. -/
def actOn (p : Parser) : Token Bytes → Parser
  | .word w => guardWord p w
  | .opening => openBrace p
  | .closing => closeBrace p

theorem guardCode_eq (p : Parser) (c : Byte) :
    guardCode p c = ((codeStep c).1.foldl actOn p, (codeStep c).2) := by
  rw [guardCode, codeStep]
  split_ifs <;> rfl

/-- `guard_transaction` acts on the tokens of the line. -/
theorem guardLoop_eq : ∀ (line : Bytes) (p : Parser) (m : GuardMode),
    guardLoop p m line = (tokensFrom m line).foldl actOn p := by
  intro line
  induction line with
  | nil =>
      intro p m
      cases m <;> rfl
  | cons c line ih =>
      intro p m
      rw [tokensFrom_cons, List.foldl_append]
      cases m with
      | code =>
          rw [guardLoop, guardCode_eq, ih]
          rfl
      | word w =>
          rw [guardLoop, modeStep, guardCode_eq]
          split
          · exact ih p _
          · exact ih _ _
      | quoted q =>
          rw [guardLoop, modeStep, ih, ih]
          split
          · rfl
          · rfl
      | escaped q => exact ih p _

theorem guardOf_word (p : Parser) (w : Bytes) :
    guardOf (guardWord p w) = (guardOf p).act (lit "$transaction") (lit "return") 16 (.word w) := by
  have harm : guardOf (armTransaction p w)
      = { guardOf p with armed := p.st.transactionBlockArmed || w = lit "$transaction" } := by
    rw [armTransaction]
    split
    · rename_i hw
      simp [guardOf, hw]
    · rename_i hw
      simp [guardOf, hw]
  have hdepths : (armTransaction p w).st.transactionDepths = p.st.transactionDepths :=
    congrArg Guard.depths harm
  rw [guardWord, guardReturn, hdepths, Guard.act]
  by_cases hreturn : w = lit "return" ∧ p.st.transactionDepths ≠ []
  · have hflagged : w = lit "return" ∧ (guardOf p).depths ≠ [] := hreturn
    have herror := guardOf_return (armTransaction p w)
    rw [if_pos hreturn, if_pos hflagged]
    rw [harm] at herror
    exact herror
  · have hflagged : ¬ (w = lit "return" ∧ (guardOf p).depths ≠ []) := hreturn
    rw [if_neg hreturn, if_neg hflagged, harm]
    rfl

theorem guardOf_open (p : Parser) :
    guardOf (openBrace p) = (guardOf p).act (lit "$transaction") (lit "return") 16 .opening := by
  unfold openBrace Guard.act
  dsimp only
  by_cases harmed : p.st.transactionBlockArmed = true
  · have harmed' : (guardOf p).armed = true := harmed
    rw [if_pos harmed, if_pos harmed', openTransaction, Guard.openMarked]
    by_cases hfull : p.st.transactionDepths.length ≥ 16
    · have hfull' : (guardOf p).depths.length ≥ 16 := hfull
      rw [if_pos hfull, if_pos hfull']
      have hother : lit "transaction nesting exceeds 16" ≠ returnError := ne_first rfl
      have herror := guardOf_error { p with st := { p.st with braceDepth := p.st.braceDepth + 1 } } hother
      exact congrArg (fun g : Guard => { g with armed := false }) herror
    · have hfull' : ¬ (guardOf p).depths.length ≥ 16 := hfull
      rw [if_neg hfull, if_neg hfull']
      rfl
  · have harmed' : ¬ (guardOf p).armed = true := harmed
    rw [if_neg harmed, if_neg harmed']
    rfl

theorem guardOf_close (p : Parser) :
    guardOf (closeBrace p) = (guardOf p).act (lit "$transaction") (lit "return") 16 .closing := rfl

/-- **A line is read** as the scanner of marked blocks reads its tokens. -/
theorem guardOf_transaction (p : Parser) (line : Bytes) :
    guardOf (guardTransaction p line) = readTokens (guardOf p) (lineTokens line) := by
  have hact : ∀ (q : Parser) (t : Token Bytes),
      guardOf (actOn q t) = (guardOf q).act (lit "$transaction") (lit "return") 16 t := by
    intro q t
    cases t with
    | word w => exact guardOf_word q w
    | opening => exact guardOf_open q
    | closing => exact guardOf_close q
  rw [guardTransaction, guardLoop_eq, lineTokens]
  generalize tokensFrom .code line = tokens
  induction tokens generalizing p with
  | nil => rfl
  | cons t tokens ih => rw [List.foldl_cons, ih, hact]; rfl

/-! ## What else a line does -/

/-- Nothing that `guard_transaction` keeps was changed, and no type was opened. -/
structure Silent (p p' : Parser) : Prop where
  guard : guardOf p' = guardOf p
  inStruct : p'.st.inStruct = p.st.inStruct
  inBlock : p'.st.inBlockComment = p.st.inBlockComment

theorem Silent.refl (p : Parser) : Silent p p := ⟨rfl, rfl, rfl⟩

theorem Silent.trans {p q r : Parser} (h : Silent p q) (h' : Silent q r) : Silent p r :=
  ⟨h'.guard.trans h.guard, h'.inStruct.trans h.inStruct, h'.inBlock.trans h.inBlock⟩

/-- A message that is not the one of `guard_transaction`. -/
theorem silent_error (p : Parser) {message : Bytes} (h : message ≠ returnError) : Silent p (p.error message) :=
  ⟨guardOf_error p h, rfl, rfl⟩

/-- A call that does not fail with the message. -/
def Other {α : Type} (x : Checked α) : Prop := ∀ e, x = .error e → e ≠ some returnError

theorem other_ok {α : Type} (a : α) : Other (.ok a : Checked α) := by
  intro e h
  cases h

theorem other_error {α : Type} {e : Option Bytes} (h : e ≠ some returnError) : Other (.error e : Checked α) := by
  intro e' he
  obtain rfl := Except.error.inj he
  exact h

theorem other_report {α : Type} {message : Bytes} (h : message ≠ returnError) :
    Other (report message : Checked α) :=
  other_error fun he => h (Option.some.inj he)

theorem other_none {α : Type} : Other (.error none : Checked α) := by
  refine other_error ?_
  intro h
  cases h

theorem silent_failed (p : Parser) {e : Option Bytes} (h : e ≠ some returnError) : Silent p (p.failed e) := by
  cases e with
  | none => exact Silent.refl p
  | some message => exact silent_error p fun hm => h (by rw [hm])

/-- Code that keeps to its own part of the state. -/
theorem silent_own {p : Parser} {ctx : Generator} {st : ParseState} (herrors : ctx.errors = p.ctx.errors)
    (hdepth : st.braceDepth = p.st.braceDepth) (hdepths : st.transactionDepths = p.st.transactionDepths)
    (harmed : st.transactionBlockArmed = p.st.transactionBlockArmed) (hstruct : st.inStruct = p.st.inStruct)
    (hblock : st.inBlockComment = p.st.inBlockComment) : Silent p ⟨ctx, st⟩ := by
  refine ⟨?_, hstruct, hblock⟩
  show Guard.mk st.braceDepth st.transactionDepths st.transactionBlockArmed (returnCount ctx.errors) = _
  rw [herrors, hdepth, hdepths, harmed]
  rfl

theorem silent_collectFunction (p : Parser) (line : Bytes) : Silent p (collectFunction p line) := by
  rw [collectFunction]
  split
  · exact Silent.refl p
  · split
    · split
      · exact silent_error p (ne_first rfl)
      · split
        · exact silent_error p (ne_first rfl)
        · exact silent_own rfl rfl rfl rfl rfl rfl
    · exact Silent.refl p

theorem silent_transactional {p p' : Parser} {line : Bytes}
    (h : parseTransactionalAnnotation p line = some p') : Silent p p' := by
  rw [ parseTransactionalAnnotation] at h
  split_ifs at h <;> obtain rfl := Option.some.inj h
  · exact silent_error p (ne_first rfl)
  · exact silent_error p (ne_second rfl)
  · exact silent_own rfl rfl rfl rfl rfl rfl

/-- What `parse_route_url` reports names the word in front of the parenthesis or starts in
    another way. -/
theorem other_routeUrl (line : Bytes) {word : Bytes} (hword : word.head? = some 0x24) :
    Other (parseRouteUrl line word) := by
  have hfirst : ∀ tail : Bytes, word ++ tail ≠ returnError := by
    intro tail
    obtain ⟨w, rfl⟩ : ∃ w, word = 0x24 :: w := List.head?_eq_some_iff.mp hword
    exact ne_first rfl
  unfold parseRouteUrl
  split
  · exact other_none
  split
  · exact other_report (hfirst _)
  split
  · exact other_report (hfirst _)
  dsimp only
  split
  · exact other_report (ne_first rfl)
  split
  · exact other_report (ne_first rfl)
  split
  · exact other_report (ne_first rfl)
  split
  · exact other_report (ne_first rfl)
  split
  · exact other_report (ne_first rfl)
  split
  · exact other_report (@ne_returnError _ 7 0x75 (by decide) rfl)
  · exact other_ok _

theorem silent_auth {p p' : Parser} {line : Bytes} (h : parseAuthAnnotation p line = some p') :
    Silent p p' := by
  have hother : ∀ x, authAnnotation line = some x → Other x := by
    intro x hx
    rw [ authAnnotation] at hx
    split_ifs at hx
    · obtain rfl := Option.some.inj hx
      exact other_ok _
    · obtain rfl := Option.some.inj hx
      exact other_ok _
    · split at hx
      · rename_i e hurl
        obtain rfl := Option.some.inj hx
        exact other_error (other_routeUrl line rfl e hurl)
      · split_ifs at hx <;> obtain rfl := Option.some.inj hx
        · exact other_report (ne_first rfl)
        · exact other_ok _
  rw [ parseAuthAnnotation] at h
  split at h
  · cases h
  · rename_i e heq
    obtain rfl := Option.some.inj h
    exact silent_failed p (hother _ heq e rfl)
  · rename_i a heq
    obtain rfl := Option.some.inj h
    cases a <;> exact silent_own rfl rfl rfl rfl rfl rfl

theorem silent_produces {p p' : Parser} {line : Bytes} (h : parseProducesAnnotation p line = some p') :
    Silent p p' := by
  rw [ parseProducesAnnotation] at h
  split at h
  · cases h
  · split at h
    · rename_i e hurl
      obtain rfl := Option.some.inj h
      exact silent_failed p (other_routeUrl line rfl e hurl)
    · split_ifs at h <;> obtain rfl := Option.some.inj h
      · exact silent_error p (ne_first rfl)
      · exact silent_error p (ne_second rfl)
      · exact silent_error p (ne_first rfl)
      · exact silent_own rfl rfl rfl rfl rfl rfl

theorem silent_store {p p' : Parser} {line : Bytes} (h : parseStoreAnnotation p line = some p') :
    Silent p p' := by
  rw [ parseStoreAnnotation] at h
  split at h
  · cases h
  · split at h
    · obtain rfl := Option.some.inj h
      exact silent_error p (ne_first rfl)
    · split at h
      · obtain rfl := Option.some.inj h
        exact silent_error p (ne_first rfl)
      · split at h
        · obtain rfl := Option.some.inj h
          exact silent_error p (ne_first rfl)
        · split_ifs at h <;> obtain rfl := Option.some.inj h
          · exact silent_error p (ne_first rfl)
          · exact silent_error p (ne_first rfl)
          · exact silent_own rfl rfl rfl rfl rfl rfl

theorem silent_repeat {p p' : Parser} {line : Bytes} (h : parseRepeatAnnotation p line = some p') :
    Silent p p' := by
  rw [ parseRepeatAnnotation] at h
  split at h
  · split at h <;> obtain rfl := Option.some.inj h
    · exact silent_error p (ne_second rfl)
    · exact silent_own rfl rfl rfl rfl rfl rfl
  · split at h
    · cases h
    · split at h
      · rename_i e hurl
        obtain rfl := Option.some.inj h
        exact silent_failed p (other_routeUrl line rfl e hurl)
      · split at h
        · obtain rfl := Option.some.inj h
          exact silent_error p (ne_first rfl)
        · split at h <;> obtain rfl := Option.some.inj h
          · exact silent_error p (ne_second rfl)
          · exact silent_own rfl rfl rfl rfl rfl rfl

theorem silent_removed {p p' : Parser} {line : Bytes} (h : reportRemovedAnnotation p line = some p') :
    Silent p p' := by
  rw [ reportRemovedAnnotation] at h
  split_ifs at h <;> obtain rfl := Option.some.inj h
  · exact silent_error p (ne_first rfl)
  · exact silent_error p (ne_first rfl)

theorem silent_dropDanglingAuth (p : Parser) : Silent p (dropDanglingAuth p) := by
  have hsecurity : Silent p (dropSecurity p) := by
    rw [dropSecurity]
    split
    · exact (silent_error p (ne_first rfl)).trans (silent_own rfl rfl rfl rfl rfl rfl)
    · exact Silent.refl p
  have hproduces : Silent (dropSecurity p) (dropProduces (dropSecurity p)) := by
    rw [dropProduces]
    split
    · exact (silent_error _ (ne_first rfl)).trans (silent_own rfl rfl rfl rfl rfl rfl)
    · exact Silent.refl _
  exact hsecurity.trans hproduces

/-! ## Signatures -/

theorem other_params (line : Bytes) (service : Bool) : Other (extractParams line service) := by
  have htake : ∀ prior text, Other (takeParam prior text service) := by
    intro prior text
    rw [takeParam]
    split
    · split_ifs
      · exact other_report (ne_first rfl)
      · exact other_report (ne_first rfl)
      · exact other_ok _
    · exact other_report (ne_first rfl)
  have hloop : ∀ n params save, Other (paramsLoop service n params save) := by
    intro n
    induction n with
    | zero => exact fun _ _ => other_report (ne_first rfl)
    | succ n ih =>
        intro params save
        rw [paramsLoop]
        split
        · split
          · rename_i e he
            exact other_error (htake _ _ e he)
          · exact other_ok _
        · split
          · rename_i e he
            exact other_error (htake _ _ e he)
          · exact ih _ _
  rw [extractParams]
  split
  · exact other_none
  · dsimp only
    split
    · exact other_ok _
    · exact hloop _ _ _

theorem other_collection (returnType : Bytes) : Other (parseCollectionReturn returnType) := by
  unfold parseCollectionReturn
  dsimp only
  split
  · exact other_ok _
  split
  · exact other_report (ne_first rfl)
  split
  · exact other_report (ne_first rfl)
  · exact other_ok _

/-- The message that starts with the name of the handler ends in another way. -/
theorem other_consistent (r : RouteGenerator.ParsedRoute) : Other (routeParamsConsistent r) := by
  unfold routeParamsConsistent
  dsimp only
  split_ifs
  · refine other_report ?_
    intro h
    have hlast := congrArg List.getLast? h
    have hbodies : (lit " bodies; only one is allowed").getLast? = some 0x64 := by decide
    have hreturn : returnError.getLast? = some 0x6C := by decide
    rw [List.getLast?_append, hbodies, hreturn] at hlast
    cases hlast
  · exact other_report (ne_first rfl)
  · exact other_ok _

theorem other_signature (st : ParseState) (line : Bytes) : Other (parseRouteSignature st line) := by
  unfold parseRouteSignature
  dsimp only
  split
  · exact other_report (ne_first rfl)
  split
  · exact other_report (ne_first rfl)
  split
  · exact other_report (ne_first rfl)
  · exact other_ok _

theorem other_bind {α β : Type} {x : Checked α} {f : α → Checked β} (hx : Other x) (hf : ∀ a, Other (f a)) :
    Other (x >>= f) := by
  cases x with
  | error e => exact other_error (hx e rfl)
  | ok a => exact hf a

theorem other_routeOf (p : Parser) (line : Bytes) : Other (routeOf p line) := by
  rw [routeOf]
  refine other_bind (other_signature p.st line) fun a => ?_
  refine other_bind (other_collection a.2) fun b => ?_
  refine other_bind (other_params line false) fun c => ?_
  exact other_bind (other_consistent _) fun r => other_ok _

theorem silent_route (p : Parser) (line : Bytes) : Silent p (parseRoute p line) := by
  have hdisarm : Silent p { p with st := { p.st with routeArmed := false } } :=
    silent_own rfl rfl rfl rfl rfl rfl
  unfold parseRoute
  dsimp only
  split
  · exact hdisarm.trans (silent_error _ (ne_first rfl))
  · split
    · rename_i e he
      exact hdisarm.trans (silent_failed _ (other_routeOf _ line e he))
    · rename_i r _
      have htake : ∀ q : Parser, Silent q (takePendingAnnotations q r).1 := by
        intro q
        unfold takePendingAnnotations
        dsimp only
        split
        · exact (silent_error q (ne_first rfl)).trans (silent_own rfl rfl rfl rfl rfl rfl)
        · exact silent_own rfl rfl rfl rfl rfl rfl
      exact (hdisarm.trans (htake _)).trans (silent_own rfl rfl rfl rfl rfl rfl)

theorem silent_service (p : Parser) (line : Bytes) : Silent p (parseService p line) := by
  have hservice : Other (serviceOf p line) := by
    rw [serviceOf]
    split
    · exact other_report (ne_first rfl)
    split
    · split
      · rename_i e he
        exact other_error (other_params line true e he)
      · exact other_ok _
    · exact other_report (ne_first rfl)
  have htake : Silent p (takeService p line) := by
    rw [takeService]
    split
    · exact silent_error p (ne_first rfl)
    · split
      · rename_i e he
        exact silent_failed p (hservice e he)
      · exact silent_own rfl rfl rfl rfl rfl rfl
  exact htake.trans (silent_own rfl rfl rfl rfl rfl rfl)

theorem silent_task (p : Parser) (line : Bytes) : Silent p (parseTask p line) := by
  have hdisarm : Silent p { p with st := { p.st with taskArmed := false } } :=
    silent_own rfl rfl rfl rfl rfl rfl
  unfold parseTask
  dsimp only
  split
  · exact hdisarm.trans (silent_error _ (ne_first rfl))
  · split
    · split
      · exact hdisarm.trans (silent_error _ (ne_first rfl))
      · split
        · rename_i e he
          have hfailed := silent_failed { p with st := { p.st with taskArmed := false } }
            (other_params line true e he)
          exact (hdisarm.trans hfailed).trans (silent_error _ (ne_first rfl))
        · split
          · exact hdisarm.trans (silent_error _ (ne_first rfl))
          · exact silent_own rfl rfl rfl rfl rfl rfl
    · exact hdisarm.trans (silent_error _ (ne_first rfl))

/-- What `validate_route_url` reports. -/
theorem other_validate (url : Bytes) : Other (validateRouteUrl url) := by
  have hsegment : ∀ p seen, Other (validateRouteSegment url p seen) := by
    intro p seen
    rw [validateRouteSegment]
    split_ifs
    · exact other_report (ne_first rfl)
    · exact other_report (ne_first rfl)
    · unfold validatePlaceholder
      dsimp only
      split_ifs
      · exact other_report (ne_first rfl)
      · exact other_report (ne_first rfl)
      · exact other_report (ne_first rfl)
      · exact other_ok _
    · exact other_report (ne_first rfl)
    · exact other_ok _
  have hloop : ∀ left p seen, Other (validateLoop url left p seen) := by
    intro left
    induction left with
    | zero =>
        intro p seen
        cases p with
        | nil => exact other_ok _
        | cons c p => exact other_report (ne_first rfl)
    | succ left ih =>
        intro p seen
        cases p with
        | nil => exact other_ok _
        | cons c p =>
            rw [validateLoop]
            split
            · rename_i e he
              exact other_error (hsegment _ _ e he)
            · split
              · exact other_ok _
              · exact ih _ _
  have hshape : Other (routeUrlShapeValid url) := by
    rw [routeUrlShapeValid]
    split_ifs
    · exact other_report (ne_first rfl)
    · exact other_report (ne_first rfl)
    · exact other_ok _
  rw [validateRouteUrl]
  split
  · rename_i e he
    exact other_error (hshape e he)
  · split
    · rename_i e he
      exact other_error (hloop _ _ _ e he)
    · exact other_ok _

theorem silent_routeAnnotation {p p' : Parser} {line : Bytes}
    (h : parseRouteAnnotation p line = some p') : Silent p p' := by
  have hother : ∀ x, armRouteAnnotation line = some x → Other x := by
    intro x hx
    unfold armRouteAnnotation at hx
    dsimp only at hx
    split at hx
    · cases hx
    split at hx
    · cases hx
    rename_i method hmethod
    have hword : (lineTrim ((line.take (GENERATOR_MAX_LINE - 1)).takeWhile (· != 0x28))).head? = some 0x24 := by
      rw [httpMethodFromWord] at hmethod
      split_ifs at hmethod with _ hget hpost hput hpatch hdelete
      · rw [hget]
        rfl
      · rw [hpost]
        rfl
      · rw [hput]
        rfl
      · rw [hpatch]
        rfl
      · rw [hdelete]
        rfl
    obtain rfl := Option.some.inj hx
    split
    · rename_i e he
      exact other_error (other_routeUrl line hword e he)
    · split
      · rename_i e he
        exact other_error (other_validate _ e he)
      · exact other_ok _
  rw [ parseRouteAnnotation] at h
  split at h
  · cases h
  · rename_i e heq
    obtain rfl := Option.some.inj h
    exact silent_failed p (hother _ heq e rfl)
  · obtain rfl := Option.some.inj h
    exact silent_own rfl rfl rfl rfl rfl rfl

/-! ## A logical line -/

/-- The line declares no type. -/
def NoType (line : Bytes) : Prop :=
  (lit "$table").isPrefixOf line = false ∧ (lit "$json").isPrefixOf line = false

instance (line : Bytes) : Decidable (NoType line) := inferInstanceAs (Decidable (_ ∧ _))

theorem silent_topLevel (p : Parser) {line : Bytes} (htype : NoType line) :
    Silent p (parseTopLevelLine p line) := by
  rw [parseTopLevelLine]
  split
  · exact Silent.refl p
  split
  · exact silent_transactional ‹_›
  split
  · exact silent_auth ‹_›
  split
  · exact silent_produces ‹_›
  split
  · exact silent_route p line
  split
  · exact silent_store ‹_›
  split
  · exact silent_repeat ‹_›
  split
  · exact silent_task p line
  split
  · exact silent_routeAnnotation ‹_›
  · refine (silent_dropDanglingAuth p).trans ?_
    have hdeclares : ¬ ((lit "$table").isPrefixOf line = true ∨ (lit "$json").isPrefixOf line = true) := by
      rw [htype.1, htype.2]
      rintro (h | h) <;> cases h
    rw [parseDeclaration]
    split
    · exact silent_service _ line
    split
    · exact silent_removed ‹_›
    · exact Silent.refl _

/-- `guard_transaction` keeps to its own part of the state. -/
theorem transaction_own (p : Parser) (line : Bytes) :
    (guardTransaction p line).st.inStruct = p.st.inStruct
      ∧ (guardTransaction p line).st.inBlockComment = p.st.inBlockComment := by
  have hact : ∀ (q : Parser) (t : Token Bytes), (actOn q t).st.inStruct = q.st.inStruct
      ∧ (actOn q t).st.inBlockComment = q.st.inBlockComment := by
    intro q t
    cases t with
    | word w =>
        show (guardReturn (armTransaction q w) w).st.inStruct = _
          ∧ (guardReturn (armTransaction q w) w).st.inBlockComment = _
        rw [guardReturn, armTransaction]
        split_ifs <;> exact ⟨rfl, rfl⟩
    | opening =>
        show (openBrace q).st.inStruct = _ ∧ (openBrace q).st.inBlockComment = _
        unfold openBrace openTransaction
        dsimp only
        split_ifs <;> exact ⟨rfl, rfl⟩
    | closing => exact ⟨rfl, rfl⟩
  rw [guardTransaction, guardLoop_eq]
  generalize tokensFrom .code line = tokens
  induction tokens generalizing p with
  | nil => exact ⟨rfl, rfl⟩
  | cons t tokens ih =>
      rw [List.foldl_cons, (ih _).1, (ih _).2]
      exact hact p t

/-- **A logical line** is read by `guard_transaction`, and by nothing else. -/
theorem sourceLine_guard (strtold : Strtold) {p : Parser} (hstruct : p.st.inStruct = false) {line : Bytes}
    (htype : NoType line) :
    guardOf (parseSourceLine strtold p line) = readTokens (guardOf p) (lineTokens line)
      ∧ (parseSourceLine strtold p line).st.inStruct = false
      ∧ (parseSourceLine strtold p line).st.inBlockComment = p.st.inBlockComment := by
  have hcollect := silent_collectFunction p line
  obtain ⟨hstruct', hblock⟩ := transaction_own (collectFunction p line) line
  have htop := silent_topLevel (guardTransaction (collectFunction p line) line) htype
  rw [parseSourceLine, if_pos hstruct]
  refine ⟨?_, ?_, ?_⟩
  · rw [htop.guard, guardOf_transaction, hcollect.guard]
  · rw [htop.inStruct, hstruct', hcollect.inStruct, hstruct]
  · rw [htop.inBlock, hblock, hcollect.inBlock]

/-! ## A physical line -/

/-- The messages for a part of the source that is not read. -/
def notRead : List Bytes :=
  [lit "the file contains a NUL byte",
    lit "line longer than " ++ lit (toString (GENERATOR_MAX_LINE - 1)) ++ lit " bytes",
    lit "function signature exceeds " ++ lit (toString (GENERATOR_MAX_LINE - 1)) ++ lit " bytes",
    lit "unfinished function signature",
    lit "the file exceeds " ++ lit (toString GENERATOR_MAX_LINES) ++ lit " lines"]

/-- A part of the source was not read, and this was reported behind the errors
    `old`. -/
def Gap (old errors : List GeneratorError) : Prop := ∃ e ∈ errors.drop old.length, e.message ∈ notRead

theorem Gap.mono {old errors errors' : List GeneratorError} (h : Gap old errors) (hgrown : errors <+: errors') :
    Gap old errors' := by
  obtain ⟨e, he, hm⟩ := h
  obtain ⟨t, rfl⟩ := hgrown
  rw [Gap, List.drop_append]
  exact ⟨e, List.mem_append_left _ he, hm⟩

theorem gap_error {old errors : List GeneratorError} (hold : old <+: errors) {e : GeneratorError}
    (he : e.message ∈ notRead) : Gap old (errors ++ [e]) := by
  refine ⟨e, ?_, he⟩
  rw [List.drop_append_of_le_length hold.length_le]
  exact List.mem_append_right _ (List.mem_singleton_self e)

/-- A signature that is put together: its literals are closed, and it declares no type. -/
structure Signature (signature : Bytes) : Prop where
  closed : Closed signature
  start : signature = [] ∨ signature.headD 0 ≠ 0x24 ∨ startsCollection signature = true

/-- A line is joined to a signature. -/
theorem Signature.join {signature line : Bytes} (h : Signature signature) (hclosed : Closed line)
    (hstart : signature = [] → line.headD 0 ≠ 0x24 ∨ startsCollection line = true) :
    let joined := if signature = [] then line else signature ++ 0x20 :: line
    Signature joined ∧ lineTokens joined = lineTokens signature ++ lineTokens line := by
  dsimp only
  by_cases hnil : signature = []
  · subst hnil
    rw [if_pos rfl]
    exact ⟨⟨hclosed, .inr (hstart rfl)⟩, rfl⟩
  · obtain ⟨htokens, hscan⟩ := tokens_join separates_space (t := line) h.closed
    rw [if_neg hnil]
    refine ⟨⟨?_, .inr ?_⟩, htokens⟩
    · rw [Closed]
      exact hscan ▸ hclosed
    · rcases h.start with hs | hs | hs
      · exact absurd hs hnil
      · obtain ⟨c, s, rfl⟩ := List.exists_cons_of_ne_nil hnil
        exact .inl hs
      · refine .inr ?_
        rw [startsCollection, Bool.or_eq_true, List.isPrefixOf_iff_prefix, List.isPrefixOf_iff_prefix] at hs ⊢
        exact hs.imp (List.IsPrefix.trans · (List.prefix_append _ _))
          (List.IsPrefix.trans · (List.prefix_append _ _))

/-- A signature declares no type. -/
theorem Signature.noType {signature : Bytes} (h : Signature signature) : NoType signature := by
  have hfalse : ∀ word : Bytes, ¬ word <+: signature → word.isPrefixOf signature = false := by
    intro word hword
    rw [← Bool.not_eq_true, List.isPrefixOf_iff_prefix]
    exact hword
  rcases h.start with rfl | hs | hs
  · exact ⟨rfl, rfl⟩
  · have hdollar : ∀ w : Bytes, ¬ 0x24 :: w <+: signature := by
      rintro w ⟨t, rfl⟩
      exact hs rfl
    exact ⟨hfalse _ (hdollar _), hfalse _ (hdollar _)⟩
  · have hother : ∀ word : Bytes, word.length ≤ 6 → ¬ word <+: lit "$list(" → ¬ word <+: lit "$page(" →
        ¬ word <+: signature := by
      intro word hlen hlist hpage hword
      rw [startsCollection, Bool.or_eq_true, List.isPrefixOf_iff_prefix, List.isPrefixOf_iff_prefix] at hs
      rcases hs with hs | hs
      · exact hlist (List.prefix_of_prefix_length_le hword hs hlen)
      · exact hpage (List.prefix_of_prefix_length_le hword hs hlen)
    exact ⟨hfalse _ (hother _ (by decide) (by decide) (by decide)),
      hfalse _ (hother _ (by decide) (by decide) (by decide))⟩

/-- The parser in front of a logical line, `block` being what is left of comments. -/
def resumed (p : Parser) (block : Bool) : Parser :=
  { p with st := { p.st with lineno := p.st.lineno + 1, inBlockComment := block } }

/-- What a physical line comes to: it is not read, or it is joined to the
    signature, or a logical line is complete. -/
theorem takeLine_cases {old : List GeneratorError} {r : Reader} (hold : old <+: r.parser.ctx.errors)
    (hsignature : Signature r.signature) {text work : Bytes} {block : Bool}
    (hstrip : stripComments none r.parser.st.inBlockComment text = (work, block)) (hclosed : Closed work)
    (htype : NoType (lineTrim work)) :
    (∃ r', takeLine r text = (r', none) ∧ Gap old r'.parser.ctx.errors)
      ∨ (∃ r', takeLine r text = (r', none) ∧ r'.parser = resumed r.parser block ∧ Signature r'.signature
        ∧ lineTokens r'.signature = lineTokens r.signature ++ lineTokens work)
      ∨ (∃ r' lineno line, takeLine r text = (r', some (lineno, line)) ∧ r'.parser = resumed r.parser block
        ∧ r'.signature = [] ∧ NoType line
        ∧ lineTokens line = lineTokens r.signature ++ lineTokens work) := by
  obtain ⟨htrim, htokens⟩ := lineTrim_tokens hclosed
  rw [takeLine]
  dsimp only
  rw [hstrip]
  dsimp only
  split
  · exact .inl ⟨_, rfl, gap_error hold (by simp [notRead])⟩
  split
  · rename_i hjoin
    split
    · exact .inl ⟨_, rfl, gap_error hold (by simp [notRead])⟩
    have hstart : r.signature = [] →
        (lineTrim work).headD 0 ≠ 0x24 ∨ startsCollection (lineTrim work) = true := by
      intro hnil
      rcases hjoin with h | ⟨h, -⟩
      · exact absurd hnil h
      · simp only [candidate, Bool.and_eq_true, Bool.or_eq_true, bne_iff_ne] at h
        exact h.1.1.1.1.2
    obtain ⟨hjoined, hjoinedTokens⟩ := hsignature.join htrim hstart
    rw [htokens] at hjoinedTokens
    by_cases hnil : r.signature = []
    · rw [if_pos hnil] at hjoined hjoinedTokens ⊢
      dsimp only
      split
      · exact .inr (.inl ⟨_, rfl, rfl, hjoined, hjoinedTokens⟩)
      · exact .inr (.inr ⟨_, _, _, rfl, rfl, rfl, hjoined.noType, hjoinedTokens⟩)
    · rw [if_neg hnil] at hjoined hjoinedTokens ⊢
      dsimp only
      split
      · exact .inr (.inl ⟨_, rfl, rfl, hjoined, hjoinedTokens⟩)
      · exact .inr (.inr ⟨_, _, _, rfl, rfl, rfl, hjoined.noType, hjoinedTokens⟩)
  · rename_i hplain
    have hnil : r.signature = [] := by
      by_contra hne
      exact hplain (.inl hne)
    refine .inr (.inr ⟨_, _, _, rfl, rfl, hnil, htype, ?_⟩)
    rw [hnil, htokens]
    rfl

/-- No type is open, and a signature may be. -/
structure Reading (r : Reader) : Prop where
  inStruct : r.parser.st.inStruct = false
  signature : Signature r.signature

/-- What `guard_transaction` would keep behind the signature that is open. -/
def ahead (r : Reader) : Guard := readTokens (guardOf r.parser) (lineTokens r.signature)

/-- **A physical line** is not read, or its tokens are. -/
theorem readLine_ahead (strtold : Strtold) {old : List GeneratorError} {r : Reader}
    (hold : old <+: r.parser.ctx.errors) (hr : Reading r) {text work : Bytes} {block : Bool}
    (hstrip : stripComments none r.parser.st.inBlockComment text = (work, block)) (hclosed : Closed work)
    (htype : NoType (lineTrim work)) :
    Gap old (readLine strtold r text).parser.ctx.errors
      ∨ (Reading (readLine strtold r text)
        ∧ ahead (readLine strtold r text) = readTokens (ahead r) (lineTokens work)
        ∧ (readLine strtold r text).parser.st.inBlockComment = block) := by
  have hresumed : guardOf (resumed r.parser block) = guardOf r.parser := rfl
  rw [readLine]
  rcases takeLine_cases hold hr.signature hstrip hclosed htype with
    ⟨r', htake, hgap⟩ | ⟨r', htake, hp, hsignature, htokens⟩
    | ⟨r', lineno, line, htake, hp, hnil, hline, htokens⟩
  · rw [htake]
    exact .inl hgap
  · rw [htake]
    refine .inr ⟨⟨?_, hsignature⟩, ?_, ?_⟩
    · rw [hp]
      exact hr.inStruct
    · rw [ahead, ahead, hp, hresumed, htokens, readTokens_append]
    · rw [hp]
      rfl
  · have hstruct : r'.parser.st.inStruct = false := by
      rw [hp]
      exact hr.inStruct
    obtain ⟨hguard, hstruct', hblock⟩ := sourceLine_guard strtold
      (p := { r'.parser with st := { r'.parser.st with lineno := lineno } }) hstruct hline
    rw [htake]
    refine .inr ⟨⟨hstruct', hnil ▸ ⟨rfl, .inl rfl⟩⟩, ?_, ?_⟩
    · have hstart : guardOf { r'.parser with st := { r'.parser.st with lineno := lineno } } = guardOf r.parser := by
        rw [hp]
        rfl
      rw [hstart, htokens, readTokens_append] at hguard
      rw [ahead, hnil, ahead]
      exact hguard
    · refine hblock.trans ?_
      rw [hp]
      rfl

/-- **All lines** are read, or a part of them is reported not to be. -/
theorem readLines_ahead (strtold : Strtold) {old : List GeneratorError} : ∀ (texts : List Bytes) {r : Reader},
    old <+: r.parser.ctx.errors → Reading r →
    (∀ work ∈ (cutLines r.parser.st.inBlockComment texts).1, Closed work ∧ NoType (lineTrim work)) →
    Gap old (texts.foldl (readLine strtold) r).parser.ctx.errors
      ∨ (Reading (texts.foldl (readLine strtold) r)
        ∧ ahead (texts.foldl (readLine strtold) r)
          = readTokens (ahead r) ((cutLines r.parser.st.inBlockComment texts).1.flatMap lineTokens)) := by
  intro texts
  induction texts with
  | nil => exact fun _ hr _ => .inr ⟨hr, rfl⟩
  | cons text texts ih =>
      intro r hold hr hlines
      obtain ⟨⟨hclosed, htype⟩, hrest⟩ := List.forall_mem_cons.mp hlines
      have herrors := readLine_errors strtold r text
      rw [List.foldl_cons]
      rcases readLine_ahead strtold hold hr rfl hclosed htype with hgap | ⟨hr', hahead, hblock⟩
      · exact .inl (hgap.mono (readLines_errors strtold texts _))
      · rw [← hblock] at hrest
        rcases ih (hold.trans herrors) hr' hrest with hgap | ⟨hr'', hrun⟩
        · exact .inl hgap
        · refine .inr ⟨hr'', ?_⟩
          rw [hrun, hahead, cutLines, List.flatMap_cons, readTokens_append, hblock]

/-! ## A source -/

/-- What a file added to the errors. -/
def reported (before after : Generator) : List GeneratorError := after.errors.drop before.errors.length

/-- What is left open at the end of a file has messages of its own. -/
theorem silent_unfinished (p : Parser) (truncated : Bool) : Silent p (reportUnfinished p truncated) := by
  have hother : ∀ x ∈ unfinished p.st truncated, x.2 ≠ returnError := by
    simp only [unfinished, List.forall_mem_cons]
    refine ⟨ne_first rfl, ne_first rfl, ne_first rfl,
      ne_first rfl, ne_first rfl, ne_first rfl,
      ne_first rfl, ?_, by simp⟩
    split
    · exact ne_first rfl
    · exact ne_first rfl
  have hmessages : ∀ m ∈ ((unfinished p.st truncated).filter (·.1)).map (·.2), m ≠ returnError := by
    intro m hm
    obtain ⟨x, hx, rfl⟩ := List.mem_map.mp hm
    exact hother x (List.mem_filter.mp hx).1
  rw [reportUnfinished]
  generalize ((unfinished p.st truncated).filter (·.1)).map (·.2) = messages at hmessages
  clear hother
  induction messages generalizing p with
  | nil => exact Silent.refl p
  | cons m messages ih =>
      obtain ⟨hm, hrest⟩ := List.forall_mem_cons.mp hmessages
      exact (silent_error p hm).trans (ih (p.error m) hrest)

/-- The tokens of the lines that are read are the tokens of the source. -/
theorem sourceLines_tokens {ps : List Piece} (hps : Lexing ps) (hclosed : ∀ p ∈ ps, p.isUnclosed = false) :
    (∀ work ∈ (cutLines false (sourceLines (source ps))).1, work ∈ linesOf (stripped ps) ∧ Closed work)
      ∧ (cutLines false (sourceLines (source ps))).1.flatMap lineTokens = words [] (plainText ps) := by
  obtain ⟨htokens, htext⟩ := tokens_eq hps hclosed []
  have hmode : wordMode [] = .code := if_pos rfl
  rw [hmode] at htokens htext
  obtain ⟨l, ls, hlines, hl, hls, hall⟩ := lines_tokens htext
  have hcut := cutLines_eq hps hclosed
  have hwhole : (linesOf (stripped ps)).flatMap lineTokens = words [] (plainText ps) := by
    rw [hlines, List.flatMap_cons, ← htokens, hall]
    rfl
  have hclosedLines : ∀ work ∈ linesOf (stripped ps), Closed work := by
    rw [hlines]
    exact List.forall_mem_cons.mpr ⟨hl, hls⟩
  rcases linesOf_sourceLines (source ps) with h | h
  · rw [← h, hcut]
    exact ⟨fun work hw => ⟨hw, hclosedLines work hw⟩, hwhole⟩
  · rw [h, cutLines_append_nil] at hcut
    have hlast : (cutLines false (sourceLines (source ps))).1 ++ [[]] = linesOf (stripped ps) :=
      congrArg Prod.fst hcut
    rw [← hlast] at hwhole hclosedLines ⊢
    refine ⟨fun work hw => ?_, ?_⟩
    · have hmem : work ∈ (cutLines false (sourceLines (source ps))).1 ++ [[]] := List.mem_append_left _ hw
      exact ⟨hmem, hclosedLines work hmem⟩
    · rw [← hwhole, List.flatMap_append]
      simp [lineTokens, tokensFrom, scan, pending]

/-- What was reported, from the number of messages before and after. -/
theorem reported_count {before after : Generator} (hgrown : before.errors <+: after.errors) {n : Nat}
    (hcount : returnCount after.errors = returnCount before.errors + n) :
    returnCount (reported before after) = n
      ∧ ((∃ e ∈ reported before after, e.message = returnError) ↔ 0 < n) := by
  obtain ⟨new, hnew⟩ := hgrown
  have hreported : reported before after = new := by
    rw [reported, ← hnew, List.drop_left]
  have hn : returnCount new = n := by
    rw [← hnew, returnCount, List.countP_append] at hcount
    exact Nat.add_left_cancel hcount
  rw [hreported]
  refine ⟨hn, ?_⟩
  rw [← hn, returnCount, List.countP_pos_iff]
  simp

/-- A file that is cut off is reported. -/
theorem gap_truncated {old : List GeneratorError} {p : Parser} (hold : old <+: p.ctx.errors) :
    Gap old (reportUnfinished p true).ctx.errors := by
  have hfirst : Gap old (p.error (lit "the file exceeds " ++ lit (toString GENERATOR_MAX_LINES)
      ++ lit " lines")).ctx.errors := gap_error hold (by simp [notRead])
  exact hfirst.mono (keeps_errors (((unfinished p.st true).tail.filter (·.1)).map (·.2)) _).errors

/-- **The end of a file**: all of it was read, or a part is reported not to be. -/
theorem parseSource_guard (strtold : Strtold) (ctx : Generator) {ps : List Piece} (hps : Lexing ps)
    (hclosed : ∀ p ∈ ps, p.isUnclosed = false)
    (htype : ∀ line ∈ linesOf (stripped ps), NoType (lineTrim line)) :
    ctx.errors <+: (generatorParseSource strtold ctx (source ps)).errors
      ∧ (Gap ctx.errors (generatorParseSource strtold ctx (source ps)).errors
        ∨ returnCount (generatorParseSource strtold ctx (source ps)).errors
          = (readTokens ⟨0, [], false, returnCount ctx.errors⟩ (words [] (plainText ps))).count) := by
  obtain ⟨hlines, htokens⟩ := sourceLines_tokens hps hclosed
  have hgrown : ctx.errors <+: (readLines strtold ctx (source ps)).parser.ctx.errors :=
    readLines_errors strtold _ { parser := ⟨ctx, {}⟩ }
  have hkeeps : ∀ p truncated, p.ctx.errors <+: (reportUnfinished p truncated).ctx.errors :=
    fun p truncated => (keeps_errors _ p).errors
  have hread : ¬ (sourceLines (source ps)).length > GENERATOR_MAX_LINES →
      Gap ctx.errors (readLines strtold ctx (source ps)).parser.ctx.errors
        ∨ ahead (readLines strtold ctx (source ps))
          = readTokens ⟨0, [], false, returnCount ctx.errors⟩ (words [] (plainText ps)) := by
    intro hfits
    have hall := readLines_ahead strtold (sourceLines (source ps)) (List.prefix_refl ctx.errors)
      (r := { parser := ⟨ctx, {}⟩ }) ⟨rfl, rfl, .inl rfl⟩
      (fun work hw => ⟨(hlines work hw).2, htype work (hlines work hw).1⟩)
    rw [readLines, List.take_of_length_le (Nat.le_of_not_gt hfits), ← htokens]
    exact hall.imp id And.right
  have hunfinished : ∀ n, (GeneratorError.mk n (lit "unfinished function signature")).message ∈ notRead :=
    fun n => by simp [notRead]
  unfold generatorParseSource
  generalize readLines strtold ctx (source ps) = r at hgrown hread
  split
  · exact ⟨List.prefix_append _ _, .inl (gap_error (List.prefix_refl _) (by simp [notRead]))⟩
  dsimp only
  by_cases hopen : r.signature = []
  · rw [if_neg (not_not.mpr hopen)]
    refine ⟨hgrown.trans (hkeeps _ _), ?_⟩
    by_cases hlong : (sourceLines (source ps)).length > GENERATOR_MAX_LINES
    · rw [decide_eq_true hlong]
      exact .inl (gap_truncated hgrown)
    · refine (hread hlong).imp (Gap.mono · (hkeeps _ _)) fun hahead => ?_
      rw [ahead, hopen] at hahead
      exact congrArg Guard.count ((silent_unfinished r.parser _).guard.trans hahead)
  · rw [if_pos hopen]
    have hgap := gap_error hgrown (hunfinished r.signatureLine)
    let error : GeneratorError := ⟨r.signatureLine, lit "unfinished function signature"⟩
    have hend := hkeeps ⟨{ r.parser.ctx with errors := r.parser.ctx.errors ++ [error] }, r.parser.st⟩
      (decide ((sourceLines (source ps)).length > GENERATOR_MAX_LINES))
    exact ⟨(hgrown.trans (List.prefix_append _ _)).trans hend, .inl (hgap.mono hend)⟩

/-- **`return` in `$transaction`** is reported, and no other.  The words and braces of a source
    without type declarations, its literals closed, are well nested, with each
    `$transaction` in front of a brace and no more than 16 of them nested: a part
    of it is reported not to be read, or the message stands as often as a
    `return` stands in a transaction. -/
theorem return_caught (strtold : Strtold) (ctx : Generator) {ps : List Piece} (hps : Lexing ps)
    (hclosed : ∀ p ∈ ps, p.isUnclosed = false) (code : Code (lit "$transaction"))
    (hcode : words [] (plainText ps) = code.tokens) (hnesting : code.nesting ≤ 16)
    (htype : ∀ line ∈ linesOf (stripped ps), NoType (lineTrim line)) :
    let new := reported ctx (generatorParseSource strtold ctx (source ps))
    (∃ e ∈ new, e.message ∈ notRead)
      ∨ (returnCount new = code.flags (lit "return") false
        ∧ ((∃ e ∈ new, e.message = returnError) ↔ 0 < code.flags (lit "return") false)) := by
  obtain ⟨hgrown, hread⟩ := parseSource_guard strtold ctx hps hclosed htype
  refine hread.imp id fun hcount => reported_count hgrown ?_
  have hne : lit "return" ≠ lit "$transaction" := by decide
  have hrun := run_code hne 16 code ⟨0, [], false, returnCount ctx.errors⟩ rfl (by simp)
    (by rw [List.length_nil]; omega)
  rw [hcount, hcode, readTokens, hrun]
  rfl

/-- A text of characters. -/
theorem lexing_chars {s : Bytes} (h : ∀ c ∈ s, ¬ IsQuote c ∧ c ≠ SLASH) :
    Lexing (s.map Piece.char) ∧ source (s.map Piece.char) = s := by
  induction s with
  | nil => exact ⟨trivial, rfl⟩
  | cons c s ih =>
      obtain ⟨⟨hq, hslash⟩, hs⟩ := List.forall_mem_cons.mp h
      obtain ⟨hlexing, hsource⟩ := ih hs
      exact ⟨⟨⟨hq, fun hopens => hslash hopens.1⟩, hlexing⟩, congrArg (c :: ·) hsource⟩

theorem chars_plain (s : Bytes) :
    plainText (s.map Piece.char) = s ∧ stripped (s.map Piece.char) = s := by
  induction s with
  | nil => exact ⟨rfl, rfl⟩
  | cons c s ih => exact ⟨congrArg (c :: ·) ih.1, congrArg (c :: ·) ih.2⟩

theorem chars_closed (s : Bytes) : ∀ p ∈ s.map Piece.char, p.isUnclosed = false := by
  intro p hp
  obtain ⟨c, -, rfl⟩ := List.mem_map.mp hp
  rfl

/-- A `return` in a transaction. -/
theorem return_code : ∃ code : Code (lit "$transaction"),
    code.tokens = [.word (lit "void"), .word (lit "f"), .word (lit "void"), .opening, .word (lit "$transaction"),
      .opening, .word (lit "return"), .closing, .closing]
      ∧ code.nesting = 1 ∧ code.flags (lit "return") false = 1 :=
  ⟨.word (lit "void") (by decide) (.word (lit "f") (by decide) (.word (lit "void") (by decide)
    (.block (.marked (.word (lit "return") (by decide) .nil) .nil) .nil))), by decide, by decide, by decide⟩

/-- Such a source. -/
def shortReturn : Bytes := lit "void f(void)\n\x7b\n$transaction\n\x7b\nreturn;\n\x7d\n\x7d\n"

theorem return_caught_small :
    returnCount (reported {} (generatorParseSource noNumber {} shortReturn)) = 1 := by
  obtain ⟨code, htokens, hnesting, hflags⟩ := return_code
  obtain ⟨hlexing, hsource⟩ := lexing_chars (s := shortReturn) (by decide)
  obtain ⟨hplain, hstripped⟩ := chars_plain shortReturn
  have h := return_caught noNumber {} hlexing (chars_closed _) code (by rw [hplain, htokens]; decide)
    (by omega) (by rw [hstripped]; decide)
  rw [hsource] at h
  rcases h with h | h
  · revert h
    decide
  · exact h.1.trans hflags

/-- Such a source, with a line that is too long. -/
def longReturn : Bytes :=
  lit "void f(void)\n\x7b\n$transaction\n\x7b\n" ++ (List.replicate 511 SPACE ++ lit "return;\n\x7d\n\x7d\n")

/-- **Not every `return` in a transaction is reported**: a line over 511 bytes is reported
    itself, and what is in it is not read. -/
theorem return_not_caught :
    ¬ ∀ (ps : List Piece) (code : Code (lit "$transaction")), Lexing ps → (∀ p ∈ ps, p.isUnclosed = false) →
      words [] (plainText ps) = code.tokens → code.nesting ≤ 16 →
      (∀ line ∈ linesOf (stripped ps), NoType (lineTrim line)) →
      ((∃ e ∈ reported {} (generatorParseSource noNumber {} (source ps)), e.message = returnError)
        ↔ 0 < code.flags (lit "return") false) := by
  intro h
  obtain ⟨code, htokens, hnesting, hflags⟩ := return_code
  obtain ⟨hlexing, hsource⟩ := lexing_chars (s := longReturn) (by decide +kernel)
  obtain ⟨hplain, hstripped⟩ := chars_plain longReturn
  have hiff := h _ code hlexing (chars_closed _) (by rw [hplain, htokens]; decide +kernel) (by omega)
    (by rw [hstripped]; decide +kernel)
  rw [hsource] at hiff
  have hnone : ¬ ∃ e ∈ reported {} (generatorParseSource noNumber {} longReturn), e.message = returnError := by
    decide +kernel
  exact hnone (hiff.mpr (by omega))

end GuardRuns

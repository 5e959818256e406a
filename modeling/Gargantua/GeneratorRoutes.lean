import Gargantua.Lib.Utf8
import Gargantua.RouteUnique
import Gargantua.GeneratorAccepted

/-! # The routes and the bounds of an accepted model

    What may be relied on about a route once every file has been parsed without
    an error, and about the bounds of a field.  A path is text if the file is:
    the reader cuts lines at bytes of ASCII only. -/

namespace GeneratorRoutes

open RouteGenerator hiding ParsedRoute
open CString GeneratorText GeneratorSource GeneratorFields GeneratorFile GeneratorValidate
open GeneratorAuth GeneratorTypes
open Utf8 (WellFormed OnlyAscii)

/-! ## Lines are text -/

theorem onlyAscii_space : OnlyAscii isSpace := by
  intro b h
  rw [isSpace, Bool.or_eq_true, beq_iff_eq, Bool.and_eq_true, decide_eq_true_eq,
    decide_eq_true_eq] at h
  rcases h with rfl | ⟨-, h⟩
  · decide
  · exact UInt8.lt_of_le_of_lt h (by decide)

theorem lineTrim_wellFormed {line : Bytes} (h : WellFormed line) : WellFormed (lineTrim line) :=
  (h.dropWhile onlyAscii_space).rdropWhile onlyAscii_space

/-- What is left of a line without its comments is text, behind the part that
    has been copied. -/
theorem stripComments_wellFormed (quote : Option Byte) (block : Bool) (line : Bytes) :
    ∀ {front : Bytes}, WellFormed (front ++ line) →
      WellFormed ((if block then [] else front) ++ (stripComments quote block line).1) := by
  induction quote, block, line using stripComments.induct with
  | case1 quote block =>
      intro front h
      rw [stripComments]
      cases block with
      | true => exact Utf8.wellFormed_nil
      | false => exact h
  | case2 quote line ih =>
      intro front h
      rw [stripComments]
      exact @ih [] ((h.split (by decide)).2.tail (by decide))
  | case3 quote c line hne ih =>
      intro front h
      rw [stripComments]
      · exact @ih (front ++ [c]) (by rwa [List.append_assoc])
      · exact hne
  | case4 quote =>
      intro front h
      exact h
  | case5 quote d line ih =>
      intro front h
      have hih := @ih (front ++ [RouteRuntime.backslash, d]) (by rwa [List.append_assoc])
      rw [if_neg Bool.false_ne_true, List.append_assoc] at hih
      exact hih
  | case6 quote c line hne ih =>
      intro front h
      have hih := @ih (front ++ [c]) (by rwa [List.append_assoc])
      rw [if_neg Bool.false_ne_true, List.append_assoc] at hih
      unfold stripComments
      rw [if_neg hne]
      exact hih
  | case7 line =>
      intro front h
      have hfront := (h.split (by decide)).1
      rw [← List.append_nil front] at hfront
      exact hfront
  | case8 line ih =>
      intro front h
      obtain ⟨hfront, hline⟩ := h.split (by decide)
      have hih := @ih [] (hline.tail (by decide))
      exact hfront.append (Utf8.wellFormed_cons (by decide) hih)
  | case9 c line hline hblock ih =>
      intro front h
      have hih := @ih (front ++ [c]) (by rwa [List.append_assoc])
      rw [if_neg Bool.false_ne_true, List.append_assoc] at hih
      rw [stripComments]
      · exact hih
      · exact hline
      · exact hblock

/-- The lines of a file are text if the file is. -/
theorem sourceLines_wellFormed {src : Bytes} (h : WellFormed src) :
    ∀ line ∈ sourceLines src, WellFormed line := by
  have hascii : OnlyAscii fun c => c == 0x0A := by
    intro b hb
    rw [eq_of_beq hb]
    decide
  intro line hline
  refine @WellFormed.lines _ hascii src [] h line ?_
  rw [show (([] : Bytes) ++ ·) = id from rfl, List.modifyHead_id]
  rw [sourceLines] at hline
  split at hline
  · exact (List.dropLast_prefix _).subset hline
  · exact hline

/-- The path of an annotation is text if the line is. -/
theorem parseRouteUrl_wellFormed {line word url : Bytes} (hline : WellFormed line)
    (h : parseRouteUrl line word = .ok url) : WellFormed url := by
  have hblank : OnlyAscii fun c => c == 0x20 || c == 0x09 := by
    intro b hb
    rcases Bool.or_eq_true_iff.mp hb with hb | hb
    · rw [eq_of_beq hb]
      decide
    · rw [eq_of_beq hb]
      decide
  unfold parseRouteUrl at h
  split at h
  · exact nomatch h
  rename_i hparen
  have hbehind := (hline.around (by decide) hparen).2.dropWhile hblank
  split at h
  · exact nomatch h
  rename_i q start hstart
  rw [skipBlanks] at hstart
  rw [hstart] at hbehind
  split at h
  · exact nomatch h
  rename_i hquote
  rw [not_not.mp hquote] at hbehind
  have htext := hbehind.tail (by decide)
  dsimp only at h
  split at h
  · exact nomatch h
  split at h
  · exact nomatch h
  rename_i hclose
  have hurl := (htext.around (by decide) hclose).1
  repeat' split at h
  all_goals cases h
  exact hurl

/-! ## What a route and a bound look like -/

/-- What a route annotation leaves as the path. -/
def PathSound (url : Bytes) : Prop := url.length < GENERATOR_MAX_URL ∧ WellFormed url

/-- What `$role` leaves pending. -/
def IsRole (role : Bytes) : Prop := role = [] ∨ role = lit "admin" ∨ role = lit "user"

/-- A parameter that is no body has a scalar type. -/
structure ParamSound (param : ParsedParam) : Prop where
  name : isSafeIdentifier param.name = true
  type : param.isBody = false → param.type = lit "int" ∨ param.type = lit "str"

/-- A route as the generator documents it. -/
structure RouteSound (r : GeneratorSource.ParsedRoute) : Prop where
  url : PathSound r.url
  role : IsRole r.role
  functionName : isSafeIdentifier r.functionName = true
  params : ∀ param ∈ r.params, ParamSound param
  bodies : r.params.countP (·.isBody) ≤ 1

/-- The bounds that are set are numbers. -/
structure Finite (rules : Rules) : Prop where
  min : rules.validation.min = true → rules.min.isFinite = true
  max : rules.validation.max = true → rules.max.isFinite = true

/-- The part of the parser that the routes and the bounds depend on. -/
structure Part where
  routes : List GeneratorSource.ParsedRoute
  types : List ParsedType
  routeUrl : Bytes
  pendingRole : Bytes
  rules : Rules

def partOf (p : Parser) : Part :=
  ⟨p.ctx.routes, p.ctx.types, p.st.routeUrl, p.st.pendingRole, p.st.rules⟩

/-- What holds of it between two lines. -/
structure PartSound (v : Part) : Prop where
  routes : ∀ r ∈ v.routes, RouteSound r
  fields : ∀ t ∈ v.types, ∀ f ∈ t.fields, Finite f.rules
  url : PathSound v.routeUrl
  role : IsRole v.pendingRole
  rules : Finite v.rules

/-! ## Handlers that do not touch it -/

theorem partOf_failed (p : Parser) (e : Option Bytes) : partOf (p.failed e) = partOf p := by
  cases e with
  | none => rfl
  | some message => rfl

theorem partOf_errors (messages : List Bytes) :
    ∀ p : Parser, partOf (p.errors messages) = partOf p := by
  induction messages with
  | nil => exact fun p => rfl
  | cons message messages ih => exact fun p => ih (p.error message)

theorem partOf_away {p p' : Parser} (h : Away p p') : partOf p' = partOf p := by
  have htypes : p'.ctx.types = p.ctx.types := congrArg TypeView.types h.view
  rw [partOf, partOf, h.routes, htypes, h.routeUrl, h.pendingRole, h.rules]

theorem partOf_references {p p' : Parser} {line : Bytes}
    (h : parseReferencesAnnotation p line = some p') : partOf p' = partOf p := by
  rw [ parseReferencesAnnotation] at h
  split_ifs at h <;> obtain rfl := Option.some.inj h <;> rfl

theorem partOf_fieldLineReady (p : Parser) (line : Bytes) :
    partOf (fieldLineReady p line).1 = partOf p := by
  rw [fieldLineReady]
  repeat' split
  all_goals rfl

/-! ## The top level -/

theorem PartSound.auth {p p' : Parser} {line : Bytes} (hs : PartSound (partOf p))
    (h : parseAuthAnnotation p line = some p') : PartSound (partOf p') := by
  rw [ parseAuthAnnotation] at h
  split at h
  · cases h
  · obtain rfl := Option.some.inj h
    exact partOf_failed p _ ▸ hs
  · rename_i a ha
    obtain rfl := Option.some.inj h
    cases a with
    | authenticated => exact ⟨hs.routes, hs.fields, hs.url, hs.role, hs.rules⟩
    | isPublic => exact ⟨hs.routes, hs.fields, hs.url, hs.role, hs.rules⟩
    | role name =>
        refine ⟨hs.routes, hs.fields, hs.url, ?_, hs.rules⟩
        unfold authAnnotation at ha
        split at ha
        · cases Except.ok.inj (Option.some.inj ha)
        split at ha
        · cases Except.ok.inj (Option.some.inj ha)
        split at ha
        · cases ha
        split at ha
        · cases Option.some.inj ha
        split at ha
        · cases Option.some.inj ha
        · rename_i hrole
          cases ha
          by_contra hnone
          rw [IsRole, not_or, not_or] at hnone
          exact hrole hnone.2

theorem PartSound.routeAnnotation {p p' : Parser} {line : Bytes} (hs : PartSound (partOf p))
    (hline : WellFormed line) (h : parseRouteAnnotation p line = some p') :
    PartSound (partOf p') := by
  rw [ parseRouteAnnotation] at h
  split at h
  · cases h
  · obtain rfl := Option.some.inj h
    exact partOf_failed p _ ▸ hs
  · rename_i method url harm
    obtain rfl := Option.some.inj h
    refine ⟨hs.routes, hs.fields, ⟨(RouteUnique.armed_of_line harm).short, ?_⟩, hs.role, hs.rules⟩
    unfold armRouteAnnotation at harm
    dsimp only at harm
    split at harm
    · cases harm
    split at harm
    · cases harm
    have harm := Option.some.inj harm
    split at harm
    · cases harm
    rename_i hurl
    split at harm
    · cases harm
    cases harm
    exact parseRouteUrl_wellFormed hline hurl

/-- `drop_dangling_auth` leaves no role pending, or the one that was. -/
theorem PartSound.dropDanglingAuth {p : Parser} (hs : PartSound (partOf p)) :
    PartSound (partOf (dropDanglingAuth p)) := by
  have hsecurity : PartSound (partOf (dropSecurity p)) := by
    rw [dropSecurity]
    split
    · exact ⟨hs.routes, hs.fields, hs.url, .inl rfl, hs.rules⟩
    · exact hs
  rw [GeneratorSource.dropDanglingAuth, dropProduces]
  split
  · exact hsecurity
  · exact hsecurity

theorem PartSound.openType {p : Parser} (hs : PartSound (partOf p)) (line : Bytes) :
    PartSound (partOf (GeneratorSource.openType p line)) := by
  rw [GeneratorSource.openType]
  split
  · exact partOf_failed p _ ▸ hs
  split
  · exact hs
  split
  · exact hs
  · refine ⟨hs.routes, fun t ht => ?_, hs.url, hs.role, hs.rules⟩
    rcases List.mem_append.mp ht with ht | ht
    · exact hs.fields t ht
    · rw [List.mem_singleton.mp ht]
      exact fun f hf => by cases hf

/-! ## Routes -/

theorem extractFunctionName_safe {line name : Bytes} (h : extractFunctionName line = some name) :
    isSafeIdentifier name = true := by
  rw [extractFunctionName] at h
  split at h
  · exact nomatch h
  dsimp only at h
  split at h
  · exact nomatch h
  split at h
  · exact Option.some.inj h ▸ ‹_›
  · exact nomatch h

theorem takeParam_sound {prior : List ParsedParam} {text : Bytes} {service : Bool}
    {param : ParsedParam} (h : takeParam prior text service = .ok param) : ParamSound param := by
  rw [takeParam] at h
  split at h
  · split at h
    · exact nomatch h
    rename_i hsafe
    split at h
    · exact nomatch h
    · obtain rfl := Except.ok.inj h
      refine ⟨Bool.not_eq_false _ ▸ (not_or.mp hsafe).2, fun hbody => ?_⟩
      by_contra hc
      exact absurd hbody (by simpa using hc)
  · exact nomatch h

theorem paramsLoop_sound {service : Bool} (n : Nat) :
    ∀ {params params' : List ParsedParam} {save : Bytes}, (∀ param ∈ params, ParamSound param) →
      paramsLoop service n params save = .ok params' → ∀ param ∈ params', ParamSound param := by
  have hsnoc : ∀ {params : List ParsedParam} {last : ParsedParam},
      (∀ param ∈ params, ParamSound param) → ParamSound last →
      ∀ param ∈ params ++ [last], ParamSound param := by
    intro params last hs hlast param hparam
    rcases List.mem_append.mp hparam with hparam | hparam
    · exact hs param hparam
    · exact List.mem_singleton.mp hparam ▸ hlast
  induction n with
  | zero => exact fun _ h => nomatch h
  | succ n ih =>
      intro params params' save hs h
      rw [paramsLoop] at h
      split at h
      · split at h
        · exact nomatch h
        · obtain rfl := Except.ok.inj h
          exact hsnoc hs (takeParam_sound ‹_›)
      · split at h
        · exact nomatch h
        · exact ih (hsnoc hs (takeParam_sound ‹_›)) h

theorem extractParams_sound {line : Bytes} {service : Bool} {params : List ParsedParam}
    (h : extractParams line service = .ok params) : ∀ param ∈ params, ParamSound param := by
  rw [extractParams] at h
  split at h
  · exact nomatch h
  dsimp only at h
  split at h
  · obtain rfl := Except.ok.inj h
    exact fun param hparam => nomatch hparam
  · exact @paramsLoop_sound service _ [] _ _ (fun param hparam => nomatch hparam) h

/-- Where a parameter comes from changes nothing else of it. -/
theorem classifyParam_same (url : Bytes) (param : ParsedParam) :
    (classifyParam url param).name = param.name ∧ (classifyParam url param).type = param.type
      ∧ (classifyParam url param).isBody = param.isBody := by
  rw [classifyParam]
  split_ifs <;> exact ⟨rfl, rfl, rfl⟩

theorem routeParamsConsistent_sound {r r' : RouteGenerator.ParsedRoute}
    (hparams : ∀ param ∈ r.params, ParamSound param) (h : routeParamsConsistent r = .ok r') :
    r'.url = r.url ∧ r'.functionName = r.functionName ∧ (∀ param ∈ r'.params, ParamSound param)
      ∧ r'.params.countP (·.isBody) ≤ 1 := by
  unfold routeParamsConsistent at h
  dsimp only at h
  split at h
  · exact nomatch h
  rename_i hbodies
  split at h
  · exact nomatch h
  obtain rfl := Except.ok.inj h
  refine ⟨rfl, rfl, fun param hparam => ?_, ?_⟩
  · obtain ⟨q, hq, rfl⟩ := List.mem_map.mp hparam
    obtain ⟨hname, htype, hbody⟩ := classifyParam_same r.url q
    have hsound := hparams q hq
    exact ⟨hname ▸ hsound.name, fun hnot => htype ▸ hsound.type (hbody ▸ hnot)⟩
  · rw [List.countP_map]
    refine le_of_eq_of_le (List.countP_congr fun q _ => ?_) (Nat.le_of_not_lt hbodies)
    rw [Function.comp_apply, (classifyParam_same r.url q).2.2]

theorem bind_ok {α β : Type} {x : Checked α} {f : α → Checked β} {b : β}
    (h : (x >>= f) = .ok b) : ∃ a, x = .ok a ∧ f a = .ok b := by
  cases x with
  | error e => exact nomatch h
  | ok a => exact ⟨a, rfl, h⟩

theorem parseRouteSignature_safe {st : ParseState} {line : Bytes} {r : Bytes × Bytes}
    (h : parseRouteSignature st line = .ok r) : isSafeIdentifier r.1 = true := by
  unfold parseRouteSignature at h
  dsimp only at h
  split at h
  · exact nomatch h
  split at h
  · exact nomatch h
  split at h
  · exact nomatch h
  · obtain rfl := Except.ok.inj h
    exact extractFunctionName_safe ‹_›

theorem routeOf_sound {p : Parser} {line : Bytes} {r : GeneratorSource.ParsedRoute}
    (hs : PartSound (partOf p)) (h : routeOf p line = .ok r) : RouteSound r := by
  unfold routeOf at h
  obtain ⟨⟨functionName, returnType⟩, hsignature, h⟩ := bind_ok h
  obtain ⟨⟨type, collection⟩, -, h⟩ := bind_ok h
  obtain ⟨params, hparams, h⟩ := bind_ok h
  obtain ⟨r', hr, h⟩ := bind_ok h
  obtain rfl := Except.ok.inj h
  obtain ⟨hurl, hname, hsound, hbodies⟩ :=
    routeParamsConsistent_sound (extractParams_sound hparams) hr
  refine ⟨?_, .inl rfl, ?_, hsound, hbodies⟩
  · show PathSound r'.url
    rw [hurl]
    exact hs.url
  · show isSafeIdentifier r'.functionName = true
    rw [hname]
    exact parseRouteSignature_safe hsignature

theorem PartSound.route {p : Parser} (hs : PartSound (partOf p)) (line : Bytes) :
    PartSound (partOf (parseRoute p line)) := by
  have harmed : PartSound (partOf { p with st := { p.st with routeArmed := false } }) := hs
  unfold parseRoute
  dsimp only
  split
  · exact hs
  split
  · rw [partOf_failed]
    exact harmed
  · rename_i r hr
    have hsound := routeOf_sound harmed hr
    have hnew : ∀ r' : GeneratorSource.ParsedRoute, r'.url = r.url → r'.role = p.st.pendingRole →
        r'.functionName = r.functionName → r'.params = r.params →
        ∀ q ∈ p.ctx.routes ++ [r'], RouteSound q := by
      intro r' hurl hrole hname hparams q hq
      rcases List.mem_append.mp hq with hq | hq
      · exact hs.routes q hq
      · rw [List.mem_singleton.mp hq]
        exact ⟨hurl ▸ hsound.url, hrole ▸ hs.role, hname ▸ hsound.functionName,
          hparams ▸ hsound.params, hparams ▸ hsound.bodies⟩
    unfold takePendingAnnotations
    dsimp only
    split
    · exact ⟨hnew _ rfl rfl rfl rfl, hs.fields, hs.url, .inl rfl, hs.rules⟩
    · exact ⟨hnew _ rfl rfl rfl rfl, hs.fields, hs.url, .inl rfl, hs.rules⟩

/-- One line at the top level. -/
theorem PartSound.topLevel {p : Parser} {line : Bytes} (hs : PartSound (partOf p))
    (hline : WellFormed line) : PartSound (partOf (parseTopLevelLine p line)) := by
  rw [parseTopLevelLine]
  split
  · exact hs
  split
  · exact partOf_away (away_transactional ‹_›) ▸ hs
  split
  · exact hs.auth ‹_›
  split
  · exact partOf_away (away_produces ‹_›) ▸ hs
  split
  · exact hs.route line
  split
  · exact partOf_away (away_store ‹_›) ▸ hs
  split
  · exact partOf_away (away_repeat ‹_›) ▸ hs
  split
  · exact partOf_away (away_task p line) ▸ hs
  split
  · exact hs.routeAnnotation hline ‹_›
  have hdrop := hs.dropDanglingAuth
  generalize GeneratorSource.dropDanglingAuth p = q at hdrop ⊢
  rw [parseDeclaration]
  split
  · exact partOf_away (away_service q line) ▸ hdrop
  split
  · exact partOf_away (away_removed ‹_›) ▸ hdrop
  split
  · exact hdrop.openType line
  · exact hdrop

/-! ## Bounds -/

theorem sizeArguments_bounds (strtold : Strtold) (value : LongDouble) (rest : Bytes)
    (invalid : Bool) (rules : Rules) :
    (sizeArguments strtold value rest invalid rules).1.validation = rules.validation
      ∧ (sizeArguments strtold value rest invalid rules).1.min = rules.min
      ∧ (sizeArguments strtold value rest invalid rules).1.max = rules.max := by
  unfold sizeArguments
  split
  · dsimp only
    repeat' split
    all_goals exact ⟨rfl, rfl, rfl⟩
  · exact ⟨rfl, rfl, rfl⟩

theorem keepArgument_bounds (rule : Rule) (text : Bytes) (rules : Rules) :
    (keepArgument rule text rules).1.validation = rules.validation
      ∧ (keepArgument rule text rules).1.min = rules.min
      ∧ (keepArgument rule text rules).1.max = rules.max := by
  unfold keepArgument
  repeat' split
  all_goals exact ⟨rfl, rfl, rfl⟩

/-- The arguments of a rule that is not refused: a bound is a number. -/
theorem ruleArguments_finite {strtold : Strtold} {rule : Rule} {args : Bytes} {invalid : Bool}
    {rules rules' : Rules} (hrule : rule ≠ .email) (hf : Finite rules)
    (h : ruleArguments strtold rule args invalid rules = (rules', false)) :
    Finite { rules' with validation := Validation.add rules'.validation rule } := by
  have hkept : ∀ text, Finite (keepArgument rule text rules).1 := by
    intro text
    obtain ⟨hvalidation, hmin, hmax⟩ := keepArgument_bounds rule text rules
    exact ⟨fun hset => hmin ▸ hf.min (hvalidation ▸ hset),
      fun hset => hmax ▸ hf.max (hvalidation ▸ hset)⟩
  have hrules := congrArg Prod.fst h
  have hvalid := congrArg Prod.snd h
  have hfinite : ∀ {tooLong left : Bool}, ((((invalid || (strtold args).errno
      || !(strtold args).found || !(strtold args).value.isFinite) || tooLong) || left) = false) →
      (strtold args).value.isFinite = true := by
    intro tooLong left hall
    simp only [Bool.or_eq_false_iff, Bool.not_eq_false'] at hall
    exact hall.1.1.2
  cases rule with
  | email => exact absurd rfl hrule
  | size =>
      obtain ⟨hv, hmin, hmax⟩ := sizeArguments_bounds strtold (strtold args).value
        (skipBlanks (strtold args).rest) ((invalid || (strtold args).errno || !(strtold args).found
          || !(strtold args).value.isFinite) || false) rules
      change (sizeArguments strtold _ _ _ rules).1 = rules' at hrules
      rw [hrules] at hv hmin hmax
      exact ⟨fun hset => hmin ▸ hf.min (hv ▸ hset), fun hset => hmax ▸ hf.max (hv ▸ hset)⟩
  | min =>
      subst hrules
      exact ⟨fun _ => hfinite hvalid, (hkept _).max⟩
  | max =>
      subst hrules
      exact ⟨(hkept _).min, fun _ => hfinite hvalid⟩

theorem ruleOf_args {line : Bytes} {rule : Rule} {args : Option Bytes}
    (h : ruleOf line = some (rule, args)) : args = none ↔ rule = .email := by
  rw [ruleOf] at h
  split_ifs at h
  all_goals
    cases h
    simp

theorem PartSound.rule {strtold : Strtold} {p p' : Parser} {line : Bytes}
    (hs : PartSound (partOf p)) (h : ruleAnnotation strtold p line = some p')
    (he : p'.ctx.errors = []) : PartSound (partOf p') := by
  rw [ ruleAnnotation] at h
  split at h
  · cases h
  rename_i rule args hrule
  split at h
  · obtain rfl := Option.some.inj h
    exact absurd he (error_ne_nil _ _)
  rename_i rules htake
  obtain rfl := Option.some.inj h
  refine ⟨hs.routes, hs.fields, hs.url, hs.role, ?_⟩
  cases args with
  | none =>
      obtain rfl := (ruleOf_args hrule).mp rfl
      obtain ⟨rfl, -⟩ := Prod.mk.inj htake
      exact ⟨hs.rules.min, hs.rules.max⟩
  | some args =>
      have hemail : rule ≠ .email := fun hc => by cases (ruleOf_args hrule).mpr hc
      exact ruleArguments_finite hemail hs.rules htake

/-! ## Fields -/

theorem PartSound.onType {p : Parser} (hs : PartSound (partOf p)) {change : ParsedType → ParsedType}
    (hchange : ∀ t, Parser.openType p = some t → ∀ f ∈ (change t).fields, Finite f.rules) :
    PartSound (partOf (Parser.onType p change)) := by
  rw [Parser.onType]
  cases hcurrent : p.st.currentType with
  | none => exact hs
  | some i =>
      refine ⟨hs.routes, fun t ht => ?_, hs.url, hs.role, hs.rules⟩
      obtain ⟨j, hj⟩ := List.mem_iff_getElem?.mp ht
      change (p.ctx.types.modify i change)[j]? = some t at hj
      rw [List.getElem?_modify] at hj
      obtain ⟨s, hsome, rfl⟩ := Option.map_eq_some_iff.mp hj
      by_cases hij : i = j
      · rw [if_pos hij]
        exact hchange s (by rw [Parser.openType, hcurrent, hij]; exact hsome)
      · rw [if_neg hij]
        exact hs.fields s (List.mem_of_getElem? hsome)

theorem finite_default : Finite {} := ⟨nofun, nofun⟩

theorem PartSound.pickName {p p' : Parser} {first : Bool} {name : Bytes}
    (hs : PartSound (partOf p)) (h : pickName p first name = .ok p') : PartSound (partOf p') := by
  have hopen : ∀ t, Parser.openType p = some t → ∀ f ∈ t.fields, Finite f.rules := by
    intro t ht
    obtain ⟨i, -, hi⟩ := openType_mem ht
    exact hs.fields t (List.mem_of_getElem? hi)
  rw [GeneratorFields.pickName] at h
  split at h
  · cases h
  split at h
  · obtain rfl := Except.ok.inj h
    exact hs.onType hopen
  split at h
  · cases h
  · obtain rfl := Except.ok.inj h
    refine hs.onType fun t ht f hf => ?_
    rcases List.mem_append.mp hf with hf | hf
    · exact hopen t ht f hf
    · exact List.mem_singleton.mp hf ▸ finite_default

theorem PartSound.pickLoop (n : Nat) : ∀ {first : Bool} {cursor : Bytes} {p : Parser},
    PartSound (partOf p) → PartSound (partOf (pickLoop n first cursor p)) := by
  induction n with
  | zero => exact fun hs => hs
  | succ n ih =>
      intro first cursor p hs
      rw [GeneratorFields.pickLoop]
      split
      · exact hs
      rename_i hname
      have hnext := hs.pickName hname
      split
      · exact ih hnext
      · split
        · exact hnext
        · exact hnext

theorem PartSound.pick {p p' : Parser} {line : Bytes} (hs : PartSound (partOf p))
    (h : parsePick p line = some p') : PartSound (partOf p') := by
  rw [parsePick] at h
  split at h
  · cases h
  split at h
  · exact Option.some.inj h ▸ hs.pickLoop _
  · exact Option.some.inj h ▸ hs

theorem checkValidation_bounds (kind : Option FieldKind) {rules : Rules} (h : Finite rules) :
    Finite (checkValidation kind rules).1 := by
  unfold checkValidation
  dsimp only
  split
  · exact ⟨h.min, h.max⟩
  · split
    · exact h
    · exact h

theorem PartSound.addField {p : Parser} (hs : PartSound (partOf p)) (f : ParsedField) :
    PartSound (partOf (addField p f)) := by
  have hp : PartSound (partOf (p.errors (checkValidation f.kind p.st.rules).2)) := by
    rw [partOf_errors]
    exact hs
  have hcleared : ∀ q : Parser, PartSound (partOf q) →
      PartSound (partOf { q with st := { q.st with rules := {}, pendingReferences := [] } }) :=
    fun q hq => ⟨hq.routes, hq.fields, hq.url, hq.role, finite_default⟩
  have hq := hcleared _ hp
  unfold GeneratorFields.addField
  dsimp only
  generalize { p.errors (checkValidation f.kind p.st.rules).2 with
    st := { (p.errors (checkValidation f.kind p.st.rules).2).st with
      rules := {}, pendingReferences := [] } } = q at hq ⊢
  split
  · exact hq
  · refine hq.onType fun t ht g hg => ?_
    rcases List.mem_append.mp hg with hg | hg
    · obtain ⟨i, -, hi⟩ := openType_mem ht
      exact hq.fields t (List.mem_of_getElem? hi) g hg
    · rw [List.mem_singleton.mp hg]
      exact checkValidation_bounds f.kind hs.rules

theorem PartSound.bodyLine {strtold : Strtold} {p : Parser} {line : Bytes}
    (hs : PartSound (partOf p)) (he : (parseTypeBodyLine strtold p line).ctx.errors = []) :
    PartSound (partOf (parseTypeBodyLine strtold p line)) := by
  rw [parseTypeBodyLine] at he ⊢
  split at he
  · exact hs.pick ‹_›
  split at he
  · exact hs.rule ‹_› he
  split at he
  · exact partOf_references ‹_› ▸ hs
  have hready := partOf_fieldLineReady p line
  revert hready
  generalize fieldLineReady p line = r
  obtain ⟨q, text⟩ := r
  intro hready
  have hq : PartSound (partOf q) := hready ▸ hs
  cases text with
  | none => exact hq
  | some text =>
      show PartSound (partOf (takeField q text))
      rw [takeField]
      split
      · exact partOf_failed q _ ▸ hq
      · exact hq
      · exact hq.addField _

/-! ## Lines and files -/

theorem PartSound.close {p : Parser} (hs : PartSound (partOf p)) (line : Bytes) :
    PartSound (partOf (handleClose p line)) := by
  have hp : PartSound (partOf (p.errors (closeErrors p line))) := by
    rw [partOf_errors]
    exact hs
  exact hp

/-- One logical line. -/
theorem PartSound.sourceLine {strtold : Strtold} {p : Parser} {line : Bytes}
    (hs : PartSound (partOf p)) (hline : WellFormed line)
    (he : (parseSourceLine strtold p line).ctx.errors = []) :
    PartSound (partOf (parseSourceLine strtold p line)) := by
  rw [parseSourceLine] at he ⊢
  split at he
  · rename_i hin
    rw [if_pos hin]
    have htop : PartSound (partOf (guardTransaction (collectFunction p line) line)) := by
      rw [partOf_away (away_passed (passed_top p line))]
      exact hs
    exact htop.topLevel hline
  · rename_i hin
    rw [if_neg hin]
    split_ifs at he ⊢
    · exact hs
    · exact hs
    · exact hs
    · exact hs.close line
    · exact hs.bodyLine he

/-- What is known of the reader: what it keeps of a signature is text too. -/
structure ReaderSound (r : Reader) : Prop where
  part : PartSound (partOf r.parser)
  signature : WellFormed r.signature

/-- The logical line that a physical one completes is text. -/
theorem ReaderSound.takeLine {r : Reader} {text : Bytes} (hs : ReaderSound r)
    (htext : WellFormed text) : ReaderSound (takeLine r text).1
      ∧ ∀ lineno line, (takeLine r text).2 = some (lineno, line) → WellFormed line := by
  have hline : WellFormed (lineTrim (stripComments none r.parser.st.inBlockComment text).1) := by
    have hstrip := @stripComments_wellFormed none r.parser.st.inBlockComment text [] htext
    rw [ite_self] at hstrip
    exact lineTrim_wellFormed hstrip
  have hjoined : WellFormed (r.signature
      ++ 0x20 :: lineTrim (stripComments none r.parser.st.inBlockComment text).1) :=
    hs.signature.append (Utf8.wellFormed_cons (by decide) hline)
  unfold GeneratorFile.takeLine
  dsimp only
  split
  · exact ⟨⟨hs.part, hs.signature⟩, nofun⟩
  split
  · split
    · exact ⟨⟨hs.part, Utf8.wellFormed_nil⟩, nofun⟩
    · split
      · split
        · exact ⟨⟨hs.part, hline⟩, nofun⟩
        · refine ⟨⟨hs.part, Utf8.wellFormed_nil⟩, fun lineno line h => ?_⟩
          cases h
          exact hline
      · split
        · exact ⟨⟨hs.part, hjoined⟩, nofun⟩
        · refine ⟨⟨hs.part, Utf8.wellFormed_nil⟩, fun lineno line h => ?_⟩
          cases h
          exact hjoined
  · refine ⟨⟨hs.part, hs.signature⟩, fun lineno line h => ?_⟩
    cases h
    exact hline

/-- One physical line. -/
theorem ReaderSound.readLine {strtold : Strtold} {r : Reader} {text : Bytes} (hs : ReaderSound r)
    (htext : WellFormed text) (he : (readLine strtold r text).parser.ctx.errors = []) :
    ReaderSound (readLine strtold r text) := by
  have htake := hs.takeLine htext
  rw [GeneratorFile.readLine] at he ⊢
  revert he htake
  generalize GeneratorFile.takeLine r text = taken
  obtain ⟨r', line⟩ := taken
  intro he htake
  cases line with
  | none => exact htake.1
  | some line =>
      obtain ⟨lineno, line⟩ := line
      have hstart : PartSound (partOf { r'.parser with
          st := { r'.parser.st with lineno := lineno } }) := htake.1.part
      exact ⟨hstart.sourceLine (htake.2 lineno line rfl) he, htake.1.signature⟩

/-- All lines. -/
theorem ReaderSound.readLines {strtold : Strtold} (texts : List Bytes) :
    ∀ {r : Reader}, ReaderSound r → (∀ text ∈ texts, WellFormed text) →
      (texts.foldl (GeneratorFile.readLine strtold) r).parser.ctx.errors = [] →
      ReaderSound (texts.foldl (GeneratorFile.readLine strtold) r) := by
  induction texts with
  | nil => exact fun h _ _ => h
  | cons text texts ih =>
      intro r hs htexts he
      have hfirst : (GeneratorFile.readLine strtold r text).parser.ctx.errors = [] :=
        List.prefix_nil.mp
          (he ▸ readLines_errors strtold texts (GeneratorFile.readLine strtold r text))
      exact ih (hs.readLine (htexts text List.mem_cons_self) hfirst)
        (fun t ht => htexts t (List.mem_cons_of_mem text ht)) he

/-- What is known of a model between two files. -/
structure FilesSound (ctx : Generator) : Prop where
  routes : ∀ r ∈ ctx.routes, RouteSound r
  fields : ∀ t ∈ ctx.types, ∀ f ∈ t.fields, Finite f.rules

theorem FilesSound.parseSource {strtold : Strtold} {ctx : Generator} {src : Bytes}
    (hs : FilesSound ctx) (hsrc : WellFormed src)
    (he : (generatorParseSource strtold ctx src).errors = []) :
    FilesSound (generatorParseSource strtold ctx src) := by
  have hlines := (accepted_end he).1
  rw [generatorParseSource] at he ⊢
  split at he
  · simp at he
  rename_i hnul
  rw [if_neg hnul]
  have hstart : ReaderSound (startFile ctx) := by
    exact ⟨⟨hs.routes, hs.fields, ⟨Nat.zero_lt_succ _, Utf8.wellFormed_nil⟩, .inl rfl,
      finite_default⟩, Utf8.wellFormed_nil⟩
  have hread : ReaderSound (GeneratorFile.readLines strtold ctx src) :=
    hstart.readLines _ (fun text htext =>
      sourceLines_wellFormed hsrc text (List.mem_of_mem_take htext)) hlines
  have hreport : ∀ p : Parser, ∀ truncated, PartSound (partOf p) →
      FilesSound (reportUnfinished p truncated).ctx := by
    intro p truncated hp
    have hpart := partOf_errors (((unfinished p.st truncated).filter (·.1)).map (·.2)) p
    rw [← hpart] at hp
    exact ⟨hp.routes, hp.fields⟩
  dsimp only
  refine hreport _ _ ?_
  split
  · exact hread.part
  · exact hread.part

/-- **The routes and the bounds of the files are sound**, once they are accepted. -/
theorem parseFiles_sound (strtold : Strtold) (files : List File) :
    ∀ ctx : Generator, FilesSound ctx → (∀ file ∈ files, WellFormed file.2) →
      (files.foldl (parseFile strtold) ctx).errors = [] →
      FilesSound (files.foldl (parseFile strtold) ctx) := by
  induction files with
  | nil => exact fun ctx hs _ _ => hs
  | cons file files ih =>
      intro ctx hs hfiles he
      have hbegin : FilesSound (generatorBeginFile ctx file.1) := ⟨hs.routes, hs.fields⟩
      exact ih _ (hbegin.parseSource (hfiles file List.mem_cons_self)
        (parseFiles_errors strtold files _ he))
        (fun f hf => hfiles f (List.mem_cons_of_mem file hf)) he

/-! ## After validation -/

/-- A reference that is set names a table and its key. -/
def ReferenceSound (f : ParsedField) : Prop :=
  f.references ≠ [] → isSafeIdentifier f.references = true ∧ isSafeIdentifier f.referenceKey = true

/-- What validation leaves of a route, the names of the types given. -/
structure RouteChecked (types : List Bytes) (r : RouteGenerator.ParsedRoute) : Prop where
  reserved : r.url ≠ lit "/openapi.json"
  returnType : serviceTypeExists types r.returnType true = true
  body : ∀ param ∈ r.params.take GENERATOR_MAX_PARAMS, param.isBody = true → param.type ∈ types

/-- What may be relied on about an accepted model. -/
structure ModelSound (ctx : Generator) : Prop where
  types : GeneratorAccepted.TypesAccepted ctx.types
  bounds : ∀ t ∈ ctx.types, ∀ f ∈ t.fields, Finite f.rules
  references : ∀ t ∈ ctx.types, ∀ f ∈ t.fields, ReferenceSound f
  routes : ∀ r ∈ ctx.routes, RouteSound r
  checked : ∀ r ∈ ctx.routes.take GENERATOR_MAX_ROUTES,
    RouteChecked (ctx.types.map (·.name)) r.toParsedRoute

theorem validateRoutesLoop_checked {types : List Bytes} :
    ∀ {routes prior : List RouteGenerator.ParsedRoute},
      validateRoutesLoop types prior routes = [] → ∀ r ∈ routes, RouteChecked types r := by
  intro routes
  induction routes with
  | nil => exact fun _ r hr => by cases hr
  | cons route routes ih =>
      intro prior h r hr
      have hreserved := (RouteUnique.validateRoutesLoop_nil h).1
      rw [validateRoutesLoop, List.append_eq_nil_iff, List.append_eq_nil_iff,
        List.append_eq_nil_iff] at h
      obtain ⟨⟨⟨-, htypes⟩, -⟩, hrest⟩ := h
      rcases List.mem_cons.mp hr with rfl | hr
      · rw [validateRouteTypes, List.append_eq_nil_iff, List.flatMap_eq_nil_iff] at htypes
        refine ⟨hreserved r List.mem_cons_self, ?_, fun param hparam hbody => ?_⟩
        · by_contra hc
          rw [if_pos (Bool.not_eq_true _ ▸ hc)] at htypes
          cases htypes.1
        · by_contra hc
          have hone := htypes.2 param hparam
          rw [if_pos ⟨hbody, hc⟩] at hone
          cases hone
      · exact ih hrest r hr

theorem resolvePick_bounds {types : List ParsedType} (i : Nat) {t : ParsedType}
    (htypes : ∀ s ∈ types, ∀ f ∈ s.fields, Finite f.rules) (ht : ∀ f ∈ t.fields, Finite f.rules) :
    ∀ f ∈ (resolvePick types i t).1.fields, Finite f.rules := by
  rw [resolvePick]
  split
  · exact ht
  split
  · exact ht
  split
  · exact ht
  rename_i source hsource
  split
  · exact ht
  intro f hf
  rcases List.mem_append.mp hf with hf | hf
  · obtain ⟨resolved, hresolved, rfl⟩ := List.mem_map.mp hf
    obtain ⟨g, hg, rfl⟩ := List.mem_map.mp hresolved
    rw [resolveField]
    split
    · rename_i found hfound
      exact htypes source (List.mem_of_getElem? hsource) found (List.mem_of_find?_eq_some hfound)
    · exact ht g (List.mem_of_mem_take hg)
  · exact ht f (List.mem_of_mem_drop hf)

theorem typeIndex_name {types : List ParsedType} {name : Bytes} {t : ParsedType}
    (h : ((typeIndex types name).bind fun i => types[i]?) = some t) : t ∈ types ∧ t.name = name := by
  obtain ⟨i, hi, ht⟩ := Option.bind_eq_some_iff.mp h
  obtain ⟨hlt, hname, -⟩ := List.findIdx?_eq_some_iff_getElem.mp hi
  rw [List.getElem?_eq_getElem hlt] at ht
  obtain rfl := Option.some.inj ht
  exact ⟨List.getElem_mem hlt, of_decide_eq_true hname⟩

/-- A field that validation lets through refers to a key. -/
theorem validateField_reference {types : List ParsedType} {t : ParsedType} {slot : Nat}
    {f : ParsedField} (htypes : ∀ s ∈ types, GeneratorAccepted.TypeAccepted s)
    (h : (validateField types t slot f).2 = []) : ReferenceSound (validateField types t slot f).1 := by
  unfold validateField at h ⊢
  dsimp only at h ⊢
  rw [List.append_eq_nil_iff, List.append_eq_nil_iff] at h
  replace h := h.1.2
  by_cases hnone : f.references = []
  · rw [if_pos hnone]
    exact fun hc => absurd hnone hc
  rw [if_neg hnone] at h ⊢
  split at h
  · rename_i key hkey
    intro _
    unfold validateReferenceField at hkey
    dsimp only at hkey
    split at hkey
    · exact nomatch hkey
    rename_i target htarget
    obtain ⟨hmem, hname⟩ := typeIndex_name htarget
    split at hkey
    · exact nomatch hkey
    rename_i field hfield
    split at hkey
    · exact nomatch hkey
    obtain rfl := Except.ok.inj hkey
    have haccepted := htypes target hmem
    have hin : field ∈ target.fields := List.mem_reverse.mp (List.mem_of_find?_eq_some hfield)
    exact ⟨hname ▸ haccepted.name, (haccepted.field field hin).name⟩
  · exact nomatch h

/-- The types of an accepted model in front of `validate_types`. -/
theorem resolved_accepted (strtold : Strtold) (files : List File)
    (h : (resolvePicks (parseFiles strtold files)).errors = []) :
    ∀ t ∈ (resolvePicks (parseFiles strtold files)).types, GeneratorAccepted.TypeAccepted t := by
  rw [resolvePicks] at h
  obtain ⟨hparsed, hpicks⟩ := List.append_eq_nil_iff.mp h
  have hok : ModelOk (parseFiles strtold files).types :=
    parseFiles_ok strtold files {} modelOk_nil hparsed
  intro t ht
  obtain ⟨i, hi⟩ := List.mem_iff_getElem?.mp ht
  obtain ⟨s, hs, rfl⟩ := GeneratorAccepted.getElem?_checked _ _ hi
  exact GeneratorAccepted.resolvePick_ok hok hs (GeneratorAccepted.checked_nil hpicks hs)

/-- **What may be relied on** about a model that is accepted. -/
theorem modelSound (strtold : Strtold) (files : List File)
    (hfiles : ∀ file ∈ files, WellFormed file.2) (h : (runGenerator strtold files).errors = []) :
    ModelSound (runGenerator strtold files) := by
  have htypes := GeneratorAccepted.typesAccepted strtold files h
  rw [runGenerator, generatorValidateModel] at h htypes ⊢
  obtain ⟨hvalid, hmodel⟩ := List.append_eq_nil_iff.mp h
  have hvalidate := hvalid
  rw [validateTypes] at hvalidate
  obtain ⟨hchecked, -⟩ := List.append_eq_nil_iff.mp hvalidate
  obtain ⟨hresolve, hfields⟩ := List.append_eq_nil_iff.mp hchecked
  have hresolved := resolved_accepted strtold files hresolve
  rw [resolvePicks] at hresolve
  -- no error of a stage is taken back, so each stage had none
  have hparsed := (List.append_eq_nil_iff.mp hresolve).1
  have hsound : FilesSound (parseFiles strtold files) :=
    parseFiles_sound strtold files {} ⟨fun r hr => (by cases hr), fun t ht => (by cases ht)⟩ hfiles
      hparsed
  have hbounds : ∀ t ∈ (resolvePicks (parseFiles strtold files)).types, ∀ f ∈ t.fields,
      Finite f.rules := by
    intro t ht
    obtain ⟨i, hi⟩ := List.mem_iff_getElem?.mp ht
    obtain ⟨s, hs, rfl⟩ := GeneratorAccepted.getElem?_checked _ _ hi
    exact resolvePick_bounds i hsound.fields (hsound.fields s (List.mem_of_getElem? hs))
  have hroutes : ∀ r ∈ (resolvePicks (parseFiles strtold files)).routes, RouteSound r :=
    hsound.routes
  generalize resolvePicks (parseFiles strtold files) = ctx
    at hresolved hfields hbounds hroutes hmodel htypes ⊢
  -- a field of the result is one of the parsed fields behind its check
  have hfield : ∀ t ∈ (validateTypes ctx).types, ∀ f ∈ t.fields, ∃ s ∈ ctx.types, ∃ g ∈ s.fields,
      ∃ i, (validateField ctx.types s i g).2 = [] ∧ f = (validateField ctx.types s i g).1 := by
    intro t ht f hf
    obtain ⟨i, hi⟩ := List.mem_iff_getElem?.mp ht
    obtain ⟨s, hs, rfl⟩ := GeneratorAccepted.getElem?_checked _ _ hi
    have hnone := GeneratorAccepted.checked_nil hfields hs
    have hf' : f ∈ s.fields.map fun g => (validateField ctx.types s i g).1 := by
      rw [validateTypeFields, List.map_map] at hf
      exact hf
    obtain ⟨g, hg, rfl⟩ := List.mem_map.mp hf'
    refine ⟨s, List.mem_of_getElem? hs, g, hg, i, ?_, rfl⟩
    rw [validateTypeFields, List.flatMap_map, List.flatMap_eq_nil_iff] at hnone
    exact hnone g hg
  refine ⟨htypes, fun t ht f hf => ?_, fun t ht f hf => ?_, hroutes, ?_⟩
  · obtain ⟨s, hs, g, hg, i, -, rfl⟩ := hfield t ht f hf
    obtain ⟨key, heq⟩ := GeneratorAccepted.validateField_eq ctx.types s i g
    rw [heq]
    exact hbounds s hs g hg
  · obtain ⟨s, hs, g, hg, i, hnone, rfl⟩ := hfield t ht f hf
    exact validateField_reference hresolved hnone
  · intro r hr
    rw [modelErrors] at hmodel
    simp only [List.append_eq_nil_iff] at hmodel
    refine validateRoutesLoop_checked hmodel.1.1.1.1 r.toParsedRoute ?_
    rw [← List.map_take]
    exact List.mem_map_of_mem hr

end GeneratorRoutes

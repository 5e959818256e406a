import Gargantua.JsonNumber
import Gargantua.RuntimeError
import Gargantua.RuntimeSink

/-! # Failure replies (`src/runtime/runtime_error.c`)

    `error_json_write` prints the failure that the request recorded, or the
    message it is given, as one JSON object.  What it prints is a value
    (`errorJsonWrite_eq`), whose texts are those that the request reported,
    cut to the sizes of their buffers.  A cut does not look for the end of a
    character, so the reply is JSON where it falls between two. -/

namespace ErrorReply

open CString RuntimeTypes RuntimeError RuntimeSink JsonGrammar JsonValue JsonUnique JsonNumber Decimal
open Utf8 (WellFormed Whole)

/-! ## The source -/

/-- `error_code_for_status`. -/
def errorCodeForStatus (status : Int) : Bytes :=
  if status = 400 then lit "bad_request"
  else if status = 401 then lit "unauthorized"
  else if status = 403 then lit "forbidden"
  else if status = 404 then lit "not_found"
  else if status = 405 then lit "method_not_allowed"
  else if status = 409 then lit "conflict"
  else if status = 413 then lit "payload_too_large"
  else if status = 415 then lit "unsupported_media_type"
  else if status = 417 then lit "expectation_failed"
  else if status = 422 then lit "unprocessable_content"
  else if status = 429 then lit "rate_limited"
  else if status = 503 then lit "unavailable"
  else if status ≥ 500 then lit "internal_error"
  else lit "request_failed"

/-- One round of the loop of `error_json_write`. -/
def addField (s : Sink) (e : FieldError) : Sink :=
  let s := sinkQuoted (sinkAdd s (lit "\x7b\"field\":")) e.field
  let s := sinkQuoted (sinkAdd s (lit ",\"code\":")) e.code
  let s := sinkQuoted (sinkAdd s (lit ",\"message\":")) e.message
  sinkAdd s (lit "\x7d")

/-- The loop of `error_json_write` over `g_errors`. -/
def fieldsLoop (s : Sink) (i : Nat) : List FieldError → Sink
  | [] => s
  | e :: errors => fieldsLoop (addField (if i > 0 then sinkAdd s (lit ",") else s) e) (i + 1) errors

/-- `error_json_write`: the text it wrote where it returns `0`. -/
def errorJsonWrite (f : Failure) (status : Int) (message : Option Bytes) (cap : Nat) :
    Option Bytes :=
  if cap = 0 then none
  else
    let active : Bool := (f.status : Int) == status
    let number := snprintf 32 (lit "\x7b\"status\":" ++ printInt status ++ lit ",\"code\":")
    let s := sinkAdd (sinkInit cap) number
    let s := sinkQuoted s (if active && f.code != [] then f.code else errorCodeForStatus status)
    let s := sinkAdd s (lit ",\"error\":")
    let s := sinkQuoted s (if active then f.message else message.getD (lit "request failed"))
    let s := sinkAdd s (lit ",\"fields\":[")
    let s := if active then fieldsLoop s 0 f.errors else s
    let s := sinkAdd s (if active && f.truncated then lit "],\"truncated\":true\x7d"
      else lit "],\"truncated\":false\x7d")
    if s.overflow then none else some s.buf

/-! ## The value that is printed -/

/-- What a reply says. -/
structure Reply where
  status : Int
  code : Bytes
  error : Bytes
  fields : List FieldError
  truncated : Bool

def fieldValue (e : FieldError) : Value :=
  object [(lit "field", .str e.field), (lit "code", .str e.code), (lit "message", .str e.message)]

/-- A reply as an object of five members. -/
def Reply.value (r : Reply) : Value :=
  object [(lit "status", .prim (printInt r.status)), (lit "code", .str r.code),
    (lit "error", .str r.error), (lit "fields", array (r.fields.map fieldValue)),
    (lit "truncated", .prim (if r.truncated then lit "true" else lit "false"))]

/-- What of a field error is printed. -/
def writtenField (e : FieldError) : FieldError := ⟨written e.field, written e.code, written e.message⟩

/-- The reply for a state of the request. -/
def replyOf (f : Failure) (status : Int) (message : Option Bytes) : Reply :=
  let active : Bool := (f.status : Int) == status
  { status := status
    code := written (if active && f.code != [] then f.code else errorCodeForStatus status)
    error := written (if active then f.message else message.getD (lit "request failed"))
    fields := if active then f.errors.map writtenField else []
    truncated := active && f.truncated }

/-- The values of `int`. -/
def IsInt (n : Int) : Prop := -2 ^ 31 ≤ n ∧ n < 2 ^ 31

theorem printInt_length {n : Int} (h : IsInt n) : (printInt n).length ≤ 11 := by
  have habs : n.natAbs < 10 ^ (9 + 1) := by
    obtain ⟨h1, h2⟩ := h
    omega
  have hlen := print_length n.natAbs habs
  rw [printInt, List.length_append]
  split
  · rw [List.length_singleton]
    omega
  · rw [List.length_nil]
    omega

theorem printInt_no_nul (n : Int) : (0 : Byte) ∉ printInt n := by
  intro h
  rcases List.mem_append.mp h with h | h
  · split at h
    · exact absurd (List.mem_singleton.mp h) (by decide)
    · exact nomatch h
  · exact absurd (print_digits n.natAbs 0 h).1 (by decide)

/-! ## What the writer does -/

section Writer

variable {cap : Nat} {content : Option Bytes} {s : Sink}

theorem addField_holds (h : Holds cap content s) (e : FieldError) :
    Holds cap (Bounded.put (cap - 1) content ((fieldValue (writtenField e)).print escape))
      (addField s e) := by
  have hall := holds_add (holds_quoted (holds_add (holds_quoted (holds_add (holds_quoted
    (holds_add h (lit "\x7b\"field\":")) e.field) (lit ",\"code\":")) e.code)
    (lit ",\"message\":")) e.message) (lit "\x7d")
  simp only [Bounded.put_put] at hall
  have hprint : (fieldValue (writtenField e)).print escape
      = cstr (lit "\x7b\"field\":") ++ quote escape (written e.field) ++ cstr (lit ",\"code\":")
        ++ quote escape (written e.code) ++ cstr (lit ",\"message\":")
        ++ quote escape (written e.message) ++ cstr (lit "\x7d") := by
    have h1 : cstr (lit "\x7b\"field\":") = 0x7B :: (quote escape (lit "field") ++ [0x3A]) := by
      decide +kernel
    have h2 : cstr (lit ",\"code\":") = 0x2C :: (quote escape (lit "code") ++ [0x3A]) := by
      decide +kernel
    have h3 : cstr (lit ",\"message\":") = 0x2C :: (quote escape (lit "message") ++ [0x3A]) := by
      decide +kernel
    have h4 : cstr (lit "\x7d") = [0x7D] := by decide
    rw [h1, h2, h3, h4]
    simp only [fieldValue, writtenField, object, members, Tree.print, Name.print, Kind.opening,
      Kind.closing, List.tail_cons, List.append_assoc, List.cons_append, List.nil_append]
  rw [hprint]
  exact hall

/-- The text of the items of an array from the item `i` on. -/
def itemsText (i : Nat) (vs : List Value) : Bytes :=
  if i > 0 then (items vs).print escape else ((items vs).print escape).tail

theorem fieldsLoop_holds (errors : List FieldError) : ∀ {content : Option Bytes} {s : Sink}
    (i : Nat), Holds cap content s →
      Holds cap (Bounded.put (cap - 1) content
        (itemsText i ((errors.map writtenField).map fieldValue))) (fieldsLoop s i errors) := by
  induction errors with
  | nil =>
      intro content s i h
      have hnil : itemsText i (([] : List FieldError).map writtenField |>.map fieldValue) = [] :=
        ite_self []
      rw [hnil, h.nil]
      exact h
  | cons e errors ih =>
      intro content s i h
      have hrest : ∀ {content : Option Bytes} {s : Sink}, Holds cap content s →
          Holds cap (Bounded.put (cap - 1) content ((fieldValue (writtenField e)).print escape
            ++ (items ((errors.map writtenField).map fieldValue)).print escape))
            (fieldsLoop (addField s e) (i + 1) errors) := by
        intro content s h
        have hstep := ih (i + 1) (addField_holds h e)
        rw [itemsText, if_pos (Nat.succ_pos i), Bounded.put_put] at hstep
        exact hstep
      rw [fieldsLoop, itemsText]
      by_cases hi : i > 0
      · have hcomma : cstr (lit ",") = [0x2C] := by decide
        have hnext := hrest (holds_add h (lit ","))
        rw [hcomma, Bounded.put_put] at hnext
        rw [if_pos hi, if_pos hi]
        exact hnext
      · rw [if_neg hi, if_neg hi]
        exact hrest h

/-- The part of the buffer that a number takes. -/
theorem number_text {status : Int} (h : IsInt status) :
    cstr (snprintf 32 (lit "\x7b\"status\":" ++ printInt status ++ lit ",\"code\":"))
      = lit "\x7b\"status\":" ++ printInt status ++ lit ",\"code\":" := by
  have hno : (0 : Byte) ∉ lit "\x7b\"status\":" ++ printInt status ++ lit ",\"code\":" := by
    rw [List.mem_append, List.mem_append, not_or, not_or]
    exact ⟨⟨by decide, printInt_no_nul status⟩, by decide⟩
  have hlen : (lit "\x7b\"status\":" ++ printInt status ++ lit ",\"code\":").length ≤ 31 := by
    have hint := printInt_length h
    have hl1 : (lit "\x7b\"status\":").length = 10 := by decide
    have hl2 : (lit ",\"code\":").length = 8 := by decide
    rw [List.length_append, List.length_append]
    omega
  rw [snprintf, cstr_eq_self hno, List.take_of_length_le hlen, cstr_eq_self hno]

/-- The pieces of a reply. -/
theorem Reply.print_eq (r : Reply) :
    r.value.print escape
      = lit "\x7b\"status\":" ++ printInt r.status ++ lit ",\"code\":" ++ quote escape r.code
        ++ cstr (lit ",\"error\":") ++ quote escape r.error ++ cstr (lit ",\"fields\":[")
        ++ itemsText 0 (r.fields.map fieldValue)
        ++ cstr (if r.truncated then lit "],\"truncated\":true\x7d"
          else lit "],\"truncated\":false\x7d") := by
  have h1 : lit "\x7b\"status\":" = 0x7B :: (quote escape (lit "status") ++ [0x3A]) := by
    decide +kernel
  have h2 : lit ",\"code\":" = 0x2C :: (quote escape (lit "code") ++ [0x3A]) := by
    decide +kernel
  have h3 : cstr (lit ",\"error\":") = 0x2C :: (quote escape (lit "error") ++ [0x3A]) := by
    decide +kernel
  have h4 : cstr (lit ",\"fields\":[") = 0x2C :: (quote escape (lit "fields") ++ [0x3A, 0x5B]) := by
    decide +kernel
  have h5 : ∀ b : Bool, cstr (if b then lit "],\"truncated\":true\x7d"
      else lit "],\"truncated\":false\x7d")
        = 0x5D :: 0x2C :: (quote escape (lit "truncated") ++ 0x3A ::
          ((if b then lit "true" else lit "false") ++ [0x7D])) := by
    decide +kernel
  have h6 : itemsText 0 (r.fields.map fieldValue)
      = ((items (r.fields.map fieldValue)).print escape).tail := if_neg (Nat.lt_irrefl 0)
  rw [h1, h2, h3, h4, h5, h6]
  simp only [Reply.value, object, array, members, Tree.print, Name.print, Kind.opening,
    Kind.closing, List.tail_cons, List.append_assoc, List.cons_append, List.nil_append]

/-- **`error_json_write` prints the reply, if the buffer holds it and its
    terminator.** -/
theorem errorJsonWrite_eq (f : Failure) {status : Int} (hstatus : IsInt status)
    (message : Option Bytes) (cap : Nat) :
    errorJsonWrite f status message cap
      = if ((replyOf f status message).value.print escape).length < cap then
          some ((replyOf f status message).value.print escape)
        else none := by
  rw [errorJsonWrite]
  by_cases hcap : cap = 0
  · rw [if_pos hcap, if_neg (by omega)]
  rw [if_neg hcap, Reply.print_eq, replyOf]
  dsimp only
  generalize ((f.status : Int) == status) = active
  generalize (if active && f.code != [] then f.code else errorCodeForStatus status) = code
  generalize (if active then f.message else message.getD (lit "request failed")) = error
  have hfront := holds_add (holds_quoted (holds_add (holds_quoted (holds_add
    (holds_init (Nat.pos_of_ne_zero hcap)) (snprintf 32 (lit "\x7b\"status\":" ++ printInt status
      ++ lit ",\"code\":"))) code) (lit ",\"error\":")) error) (lit ",\"fields\":[")
  have hfields : ∀ {content : Option Bytes} {s : Sink}, Holds cap content s →
      Holds cap (Bounded.put (cap - 1) content
        (itemsText 0 ((if active then f.errors.map writtenField else []).map fieldValue)))
        (if active then fieldsLoop s 0 f.errors else s) := by
    intro content s h
    cases active with
    | true => exact fieldsLoop_holds f.errors 0 h
    | false =>
        have hnil : itemsText 0 (([] : List FieldError).map fieldValue) = [] := ite_self []
        rw [if_neg Bool.false_ne_true, if_neg Bool.false_ne_true, hnil, h.nil]
        exact h
  have hall := holds_add (hfields hfront) (if active && f.truncated then
    lit "],\"truncated\":true\x7d" else lit "],\"truncated\":false\x7d")
  refine hall.text_eq.trans ?_
  rw [number_text hstatus]
  simp only [Bounded.put_put]
  rw [Bounded.put_some, List.length_nil, Nat.zero_add, List.nil_append]
  exact if_congr (by omega) rfl rfl

end Writer

/-! ## What a request reports -/

/-- A call that reports a failure. -/
inductive Call where
  | fail (status : Nat) (message : Option Bytes)
  | failCode (status : Nat) (code message : Bytes)
  | fieldError (field code message : Bytes)

def Call.run (f : Failure) : Call → Failure
  | .fail status message => requestFail f status message
  | .failCode status code message => requestFailCode f status code message
  | .fieldError field code message => fieldErrorAdd f field code message

/-- The state after a sequence of calls. -/
def failureOf (calls : List Call) : Failure := calls.foldl Call.run {}

/-- The field error that a call reports, in full. -/
def Call.field? : Call → Option FieldError
  | .fail _ _ => none
  | .failCode _ _ _ => none
  | .fieldError field code message => some ⟨cstr field, cstr code, cstr message⟩

/-- The failure of a request with its texts in full. -/
structure Report where
  status : Nat
  code : Bytes
  message : Bytes
  fields : List FieldError

/-- The first call decides, and the field errors of a failed validation are all
    reported. -/
def reported : List Call → Report
  | [] => ⟨0, [], [], []⟩
  | .fail status message :: _ => ⟨status, [], message.elim [] cstr, []⟩
  | .failCode status code message :: calls =>
      ⟨status, cstr code, cstr message,
        if cstr code = lit "validation_failed" then calls.filterMap Call.field? else []⟩
  | .fieldError field code message :: calls =>
      ⟨400, lit "validation_failed", lit "request validation failed",
        ⟨cstr field, cstr code, cstr message⟩ :: calls.filterMap Call.field?⟩

/-- A field error as its buffers hold it. -/
def FieldError.cut (e : FieldError) : FieldError :=
  ⟨e.field.take (FIELD_PATH_LEN - 1), e.code.take (CODE_LEN - 1),
    e.message.take (FAIL_MESSAGE_LEN - 1)⟩

/-- What the request keeps of a report. -/
def Report.kept (r : Report) : Failure where
  status := r.status
  message := r.message.take (FAIL_MESSAGE_LEN - 1)
  code := r.code.take (CODE_LEN - 1)
  errors := (r.fields.take ERROR_FIELDS_MAX).map FieldError.cut
  truncated := decide (ERROR_FIELDS_MAX < r.fields.length)

/-- A report with one more field error. -/
def Report.add (r : Report) (e : FieldError) : Report := { r with fields := r.fields ++ [e] }

/-- The status of a failure that `request_fail` takes. -/
def IsFailStatus (status : Nat) : Prop := 100 ≤ status ∧ status < 600

def Call.HasStatus : Call → Prop
  | .fail status _ => IsFailStatus status
  | .failCode status _ _ => IsFailStatus status
  | .fieldError _ _ _ => True

/-- The texts of a call satisfy `P`. -/
def Call.Texts (P : Bytes → Prop) : Call → Prop
  | .fail _ message => ∀ text, message = some text → P (cstr text)
  | .failCode _ code message => P (cstr code) ∧ P (cstr message)
  | .fieldError field code message => P (cstr field) ∧ P (cstr code) ∧ P (cstr message)

/-- A call as the runtime makes it: with such a status, and texts in UTF-8. -/
def Call.Valid (c : Call) : Prop := c.HasStatus ∧ c.Texts WellFormed

section Reports

variable {r : Report}

theorem kept_failed (h : r.status ≠ 0) : requestFailed r.kept = true := bne_iff_ne.mpr h

/-- A code is cut to the code of a failed validation only where it is that code. -/
theorem take_validation {code : Bytes} :
    code.take (CODE_LEN - 1) = lit "validation_failed" ↔ code = lit "validation_failed" := by
  constructor
  · intro h
    have hlen := congrArg List.length h
    have hlit : (lit "validation_failed").length = 17 := by decide
    have hle : code.length ≤ CODE_LEN - 1 := by
      rw [List.length_take, hlit] at hlen
      change min 31 code.length = 17 at hlen
      change code.length ≤ 31
      omega
    rw [List.take_of_length_le hle] at h
    exact h
  · rintro rfl
    decide

/-- A field error behind a failed validation is the next one. -/
theorem fieldErrorAdd_kept (h : r.status ≠ 0) (hcode : r.code = lit "validation_failed")
    (field code message : Bytes) :
    fieldErrorAdd r.kept field code message
      = (r.add ⟨cstr field, cstr code, cstr message⟩).kept := by
  have hvalid : r.kept.code = lit "validation_failed" := take_validation.mpr hcode
  have hgo : (requestFailed r.kept && r.kept.code != lit "validation_failed") = false := by
    rw [hvalid, bne_self_eq_false, Bool.and_false]
  have hcount : r.kept.errors.length = min ERROR_FIELDS_MAX r.fields.length := by
    rw [Report.kept, List.length_map, List.length_take]
  rw [fieldErrorAdd, hgo, if_neg Bool.false_ne_true, requestFailCode_of_failed (kept_failed h)]
  dsimp only
  rw [hcount]
  by_cases hfull : min ERROR_FIELDS_MAX r.fields.length ≥ ERROR_FIELDS_MAX
  · have hle : ERROR_FIELDS_MAX ≤ r.fields.length := Nat.le_trans hfull (Nat.min_le_right _ _)
    rw [if_pos hfull, Report.kept, Report.kept, Report.add]
    dsimp only
    rw [List.take_append_of_le_length hle, List.length_append, List.length_singleton,
      decide_eq_true (Nat.lt_succ_of_le hle)]
  · have hlt : r.fields.length < ERROR_FIELDS_MAX := by omega
    have hlen : (r.fields ++ [FieldError.mk (cstr field) (cstr code) (cstr message)]).length
        = r.fields.length + 1 := List.length_append
    rw [if_neg hfull, Report.kept, Report.kept, Report.add]
    dsimp only
    rw [@List.take_of_length_le _ ERROR_FIELDS_MAX r.fields (Nat.le_of_lt hlt),
      @List.take_of_length_le _ ERROR_FIELDS_MAX (r.fields ++ [FieldError.mk (cstr field) (cstr code) (cstr message)])
        (by omega), List.map_append, hlen, decide_eq_false (by omega), decide_eq_false (by omega)]
    rfl

/-- After the first call only the field errors of a failed validation count. -/
theorem run_kept (h : r.status ≠ 0) (c : Call) :
    Call.run r.kept c = if r.code = lit "validation_failed" then
        { r with fields := r.fields ++ c.field?.toList }.kept
      else r.kept := by
  have hsame : { r with fields := r.fields ++ [] }.kept = r.kept := by
    rw [List.append_nil]
  cases c with
  | fail status message =>
      rw [Call.run, requestFail_of_failed (kept_failed h)]
      split
      · exact hsame.symm
      · rfl
  | failCode status code message =>
      rw [Call.run, requestFailCode_of_failed (kept_failed h)]
      split
      · exact hsame.symm
      · rfl
  | fieldError field code message =>
      rw [Call.run]
      by_cases hcode : r.code = lit "validation_failed"
      · rw [if_pos hcode, fieldErrorAdd_kept h hcode]
        rfl
      · have hne : r.kept.code ≠ lit "validation_failed" := fun hc => hcode (take_validation.mp hc)
        rw [if_neg hcode, fieldErrorAdd, kept_failed h, Bool.true_and, if_pos (bne_iff_ne.mpr hne)]

theorem foldl_kept (calls : List Call) : ∀ {r : Report}, r.status ≠ 0 →
    calls.foldl Call.run r.kept = if r.code = lit "validation_failed" then
        { r with fields := r.fields ++ calls.filterMap Call.field? }.kept
      else r.kept := by
  induction calls with
  | nil =>
      intro r _
      rw [List.foldl_nil, List.filterMap_nil, List.append_nil, ite_self]
  | cons c calls ih =>
      intro r h
      rw [List.foldl_cons, run_kept h]
      by_cases hcode : r.code = lit "validation_failed"
      · have hrest := @ih { r with fields := r.fields ++ c.field?.toList } h
        rw [if_pos (show ({ r with fields := r.fields ++ c.field?.toList } : Report).code
          = lit "validation_failed" from hcode), List.append_assoc] at hrest
        rw [if_pos hcode, if_pos hcode, hrest]
        cases hc : c.field? with
        | none =>
            rw [List.filterMap_cons_none hc]
            rfl
        | some e =>
            rw [List.filterMap_cons_some hc]
            rfl
      · rw [if_neg hcode, if_neg hcode, ih h, if_neg hcode]

/-- **The state of a request is what it keeps of its report.** -/
theorem failureOf_eq {calls : List Call} (hcalls : ∀ c ∈ calls, c.Valid) :
    failureOf calls = (reported calls).kept := by
  cases calls with
  | nil => rfl
  | cons c calls =>
      have hc := hcalls c List.mem_cons_self
      rw [failureOf, List.foldl_cons]
      cases c with
      | fail status message =>
          have hne : status ≠ 0 := Nat.ne_of_gt (Nat.lt_of_lt_of_le (by decide) hc.1.1)
          have hfirst : Call.run {} (.fail status message)
              = (Report.mk status [] (message.elim [] cstr) []).kept := rfl
          rw [hfirst, foldl_kept calls hne,
            if_neg (show ¬ ([] : Bytes) = lit "validation_failed" by decide)]
          rfl
      | failCode status code message =>
          have hne : status ≠ 0 := Nat.ne_of_gt (Nat.lt_of_lt_of_le (by decide) hc.1.1)
          have hfirst : Call.run {} (.failCode status code message)
              = (Report.mk status (cstr code) (cstr message) []).kept := rfl
          rw [hfirst, foldl_kept calls hne, reported]
          by_cases hcode : cstr code = lit "validation_failed"
          · rw [if_pos hcode, if_pos hcode, List.nil_append]
          · rw [if_neg hcode, if_neg hcode]
      | fieldError field code message =>
          have hfirst : Call.run {} (.fieldError field code message)
              = (Report.mk 400 (lit "validation_failed") (lit "request validation failed")
                  [⟨cstr field, cstr code, cstr message⟩]).kept := rfl
          rw [hfirst, foldl_kept calls (show 400 ≠ 0 by decide), if_pos rfl]
          rfl

end Reports

/-! ## Where a reply is JSON -/

/-- The text that stands for the error where the status is not that of the
    recorded failure. -/
def otherError (message : Option Bytes) : Bytes := cstr (message.getD (lit "request failed"))

/-- No field error that is kept is cut inside a character. -/
def FieldError.Uncut (e : FieldError) : Prop :=
  Whole (FIELD_PATH_LEN - 1) e.field ∧ Whole (CODE_LEN - 1) e.code
    ∧ Whole (FAIL_MESSAGE_LEN - 1) e.message

/-- No text that the reply with this status prints is cut inside a character. -/
def Uncut (r : Report) (status : Int) (message : Option Bytes) : Prop :=
  if (r.status : Int) = status then
    Whole (CODE_LEN - 1) r.code ∧ Whole (FAIL_MESSAGE_LEN - 1) r.message
      ∧ ∀ e ∈ r.fields.take ERROR_FIELDS_MAX, FieldError.Uncut e
  else Whole RUNTIME_MAX_TEXT (otherError message)

instance (e : FieldError) : Decidable (FieldError.Uncut e) := inferInstanceAs (Decidable (_ ∧ _))

instance (r : Report) (status : Int) (message : Option Bytes) :
    Decidable (Uncut r status message) := inferInstanceAs (Decidable (ite _ _ _))

/-- The texts of a reply that are not the code's own. -/
def Reply.Texts (P : Bytes → Prop) (r : Reply) : Prop :=
  P r.code ∧ P r.error ∧ ∀ e ∈ r.fields, P e.field ∧ P e.code ∧ P e.message

theorem fieldValue_every {prim str : Bytes → Prop} {ns : List Bytes → Prop} (e : FieldError) :
    (fieldValue e).Every prim str ns
      ↔ ns [lit "field", lit "code", lit "message"] ∧ str e.field ∧ str e.code ∧ str e.message := by
  rw [fieldValue, Tree.every_object, List.forall_mem_cons, List.forall_mem_cons,
    List.forall_mem_singleton]
  rfl

theorem Reply.every_iff {prim str : Bytes → Prop} {ns : List Bytes → Prop} (r : Reply)
    (hstatus : prim (printInt r.status)) (hbool : prim (lit "true") ∧ prim (lit "false"))
    (hnames : ns [] ∧ ns [lit "field", lit "code", lit "message"]
      ∧ ns [lit "status", lit "code", lit "error", lit "fields", lit "truncated"]) :
    r.value.Every prim str ns ↔ r.Texts str := by
  have htruncated : prim (if r.truncated then lit "true" else lit "false") := by
    cases r.truncated with
    | true => exact hbool.1
    | false => exact hbool.2
  rw [Reply.value, Tree.every_object, List.forall_mem_cons, List.forall_mem_cons,
    List.forall_mem_cons, List.forall_mem_cons, List.forall_mem_singleton, Tree.every_array,
    List.forall_mem_map, Reply.Texts]
  simp only [fieldValue_every]
  constructor
  · rintro ⟨-, -, hcode, herror, ⟨-, hfields⟩, -⟩
    exact ⟨hcode, herror, fun e he => (hfields e he).2⟩
  · rintro ⟨hcode, herror, hfields⟩
    exact ⟨hnames.2.2, hstatus, hcode, herror, ⟨hnames.1, fun e he => ⟨hnames.2.1, hfields e he⟩⟩,
      htruncated⟩

/-- The names of a reply are UTF-8. -/
theorem names_wellFormed : NamesWellFormed []
    ∧ NamesWellFormed [lit "field", lit "code", lit "message"]
    ∧ NamesWellFormed [lit "status", lit "code", lit "error", lit "fields", lit "truncated"] := by
  have hascii : ∀ n ∈ [lit "field", lit "message", lit "status", lit "code", lit "error",
      lit "fields", lit "truncated"], ∀ b ∈ n, b < 0x80 := by decide
  have hall := fun n hn => Utf8.wellFormed_of_ascii (hascii n hn)
  refine ⟨(fun _ h => nomatch h), fun n hn => hall n ?_, fun n hn => hall n ?_⟩
  · revert n
    decide
  · revert n
    decide

/-- The text of a reply says the reply exactly where its texts are UTF-8. -/
theorem Reply.says_iff (r : Reply) : Says (r.value.print escape) r.value ↔ r.Texts WellFormed := by
  have hprim : r.value.Every Primitive (fun _ => True) (fun _ => True) :=
    (r.every_iff (printInt_primitive r.status) ⟨⟨.true_, rfl⟩, ⟨.false_, rfl⟩⟩
      ⟨trivial, trivial, trivial⟩).mpr ⟨trivial, trivial, fun _ _ => ⟨trivial, trivial, trivial⟩⟩
  rw [escapes.document_iff hprim, r.every_iff trivial ⟨trivial, trivial⟩ names_wellFormed]

/-- Whatever the text of a reply says, its texts are UTF-8. -/
theorem Reply.texts_of_says {r : Reply} {v : Value} (h : Says (r.value.print escape) v) :
    r.Texts WellFormed := by
  obtain ⟨d, hd, -⟩ := h
  have hw := Document.wellFormed d
  rw [hd, ← List.append_nil (r.value.print escape)] at hw
  exact (r.every_iff trivial ⟨trivial, trivial⟩ names_wellFormed).mp
    (escapes.every r.value hw fun _ _ h => nomatch h).1

/-- The texts of a report satisfy `P`. -/
def Report.Texts (P : Bytes → Prop) (r : Report) : Prop :=
  P r.code ∧ P r.message ∧ ∀ e ∈ r.fields, P e.field ∧ P e.code ∧ P e.message

/-- What holds of the texts of all calls, and of the runtime's own, holds of the
    texts of the report. -/
theorem reported_texts {P : Bytes → Prop} (hnil : P [])
    (hown : P (lit "validation_failed") ∧ P (lit "request validation failed"))
    {calls : List Call} (hcalls : ∀ c ∈ calls, c.Texts P) : (reported calls).Texts P := by
  have hlater : ∀ {calls : List Call}, (∀ c ∈ calls, c.Texts P) →
      ∀ e ∈ calls.filterMap Call.field?, P e.field ∧ P e.code ∧ P e.message := by
    intro calls hcalls e he
    obtain ⟨c, hc, hfield⟩ := List.mem_filterMap.mp he
    have htexts := hcalls c hc
    cases c with
    | fail status message => exact nomatch hfield
    | failCode status code message => exact nomatch hfield
    | fieldError field code message =>
        obtain rfl := Option.some.inj hfield
        exact htexts
  cases calls with
  | nil => exact ⟨hnil, hnil, fun _ h => nomatch h⟩
  | cons c calls =>
      have hrest := hlater fun d hd => hcalls d (List.mem_cons_of_mem c hd)
      have htexts := hcalls c List.mem_cons_self
      cases c with
      | fail status message =>
          refine ⟨hnil, ?_, fun _ h => nomatch h⟩
          cases message with
          | none => exact hnil
          | some text => exact htexts text rfl
      | failCode status code message =>
          refine ⟨htexts.1, htexts.2, fun e he => ?_⟩
          rw [reported] at he
          dsimp only at he
          split at he
          · exact hrest e he
          · exact nomatch he
      | fieldError field code message =>
          exact ⟨hown.1, hown.2, List.forall_mem_cons.mpr ⟨htexts, hrest⟩⟩

theorem reported_wellFormed {calls : List Call} (hcalls : ∀ c ∈ calls, c.Valid) :
    (reported calls).Texts WellFormed := by
  have hascii : (∀ b ∈ lit "validation_failed", b < 0x80)
      ∧ ∀ b ∈ lit "request validation failed", b < 0x80 := by decide
  exact reported_texts Utf8.wellFormed_nil
    ⟨Utf8.wellFormed_of_ascii hascii.1, Utf8.wellFormed_of_ascii hascii.2⟩ fun c hc => (hcalls c hc).2

/-- No text of a report holds a NUL. -/
theorem reported_no_nul (calls : List Call) : (reported calls).Texts ((0 : Byte) ∉ ·) := by
  refine reported_texts (fun h => nomatch h) (by decide) fun c _ => ?_
  cases c with
  | fail status message => exact fun text _ => cstr_no_nul text
  | failCode status code message => exact ⟨cstr_no_nul code, cstr_no_nul message⟩
  | fieldError field code message =>
      exact ⟨cstr_no_nul field, cstr_no_nul code, cstr_no_nul message⟩

/-- The codes of the statuses are short and need no escape. -/
theorem errorCode_text (status : Int) :
    (∀ b ∈ errorCodeForStatus status, IsPlain b ∧ b < 0x80)
      ∧ (errorCodeForStatus status).length ≤ CODE_LEN := by
  have hite : ∀ {c : Prop} [Decidable c] {s t : Bytes},
      ((∀ b ∈ s, IsPlain b ∧ b < 0x80) ∧ s.length ≤ CODE_LEN) →
      ((∀ b ∈ t, IsPlain b ∧ b < 0x80) ∧ t.length ≤ CODE_LEN) →
      (∀ b ∈ if c then s else t, IsPlain b ∧ b < 0x80) ∧ (if c then s else t).length ≤ CODE_LEN := by
    intro c _ s t hs ht
    split
    · exact hs
    · exact ht
  rw [errorCodeForStatus]
  iterate 13 refine hite (by decide) ?_
  decide

/-- A short text is printed whole. -/
theorem written_eq {s : Bytes} (h0 : (0 : Byte) ∉ s) (h : s.length ≤ RUNTIME_MAX_TEXT) :
    written s = s := by
  rw [written, cstr_eq_self h0, List.take_of_length_le h]

theorem errorCode_written (status : Int) :
    written (errorCodeForStatus status) = errorCodeForStatus status := by
  have htext := errorCode_text status
  exact written_eq (fun h => absurd (htext.1 0 h).1.1 (by decide))
    (Nat.le_trans htext.2 (by decide))

theorem take_written {s : Bytes} (h0 : (0 : Byte) ∉ s) {n : Nat} (hn : n ≤ RUNTIME_MAX_TEXT) :
    written (s.take n) = s.take n :=
  written_eq (fun h => h0 (List.mem_of_mem_take h))
    (Nat.le_trans (List.length_take_le n s) hn)

/-- The reply to a request, from its report. -/
theorem replyOf_kept {r : Report} (h0 : r.Texts ((0 : Byte) ∉ ·)) (status : Int)
    (message : Option Bytes) :
    replyOf r.kept status message
      = if (r.status : Int) = status then
          { status := status
            code := if r.code.take (CODE_LEN - 1) = [] then errorCodeForStatus status
              else r.code.take (CODE_LEN - 1)
            error := r.message.take (FAIL_MESSAGE_LEN - 1)
            fields := (r.fields.take ERROR_FIELDS_MAX).map FieldError.cut
            truncated := decide (ERROR_FIELDS_MAX < r.fields.length) }
        else
          { status := status, code := errorCodeForStatus status
            error := (otherError message).take RUNTIME_MAX_TEXT, fields := [], truncated := false } := by
  have hcode := errorCode_written status
  rw [replyOf]
  by_cases hactive : (r.status : Int) = status
  · have hbeq : ((r.kept.status : Int) == status) = true := beq_iff_eq.mpr hactive
    have hfields : r.kept.errors.map writtenField = (r.fields.take ERROR_FIELDS_MAX).map FieldError.cut := by
      rw [Report.kept, List.map_map]
      refine List.map_congr_left fun e he => ?_
      obtain ⟨hf, hc, hm⟩ := h0.2.2 e (List.mem_of_mem_take he)
      show writtenField (FieldError.cut e) = FieldError.cut e
      rw [writtenField, FieldError.cut]
      dsimp only
      rw [take_written hf (by decide), take_written hc (by decide), take_written hm (by decide)]
    rw [hbeq, if_pos hactive, if_pos rfl, if_pos rfl, hfields, Bool.true_and, Bool.true_and,
      Report.kept]
    dsimp only
    rw [take_written h0.2.1 (by decide)]
    by_cases hnil : r.code.take (CODE_LEN - 1) = []
    · rw [hnil, if_pos rfl, bne_self_eq_false, if_neg Bool.false_ne_true, hcode]
    · rw [if_neg hnil, if_pos (bne_iff_ne.mpr hnil), take_written h0.1 (by decide)]
  · have hbeq : ((r.kept.status : Int) == status) = false := beq_eq_false_iff_ne.mpr hactive
    rw [hbeq, if_neg hactive, if_neg Bool.false_ne_true, if_neg Bool.false_ne_true, Bool.false_and,
      Bool.false_and, if_neg Bool.false_ne_true, hcode]
    rfl

/-- The texts of a reply are UTF-8 exactly where none was cut inside a character. -/
theorem replyTexts_iff {r : Report} (h0 : r.Texts ((0 : Byte) ∉ ·)) (hw : r.Texts WellFormed)
    {message : Option Bytes} (hmessage : WellFormed (otherError message)) (status : Int) :
    (replyOf r.kept status message).Texts WellFormed ↔ Uncut r status message := by
  have hcode : WellFormed (errorCodeForStatus status) :=
    Utf8.wellFormed_of_ascii fun b hb => ((errorCode_text status).1 b hb).2
  rw [replyOf_kept h0, Uncut, Reply.Texts]
  by_cases hactive : (r.status : Int) = status
  · have hfields : (∀ e ∈ (r.fields.take ERROR_FIELDS_MAX).map FieldError.cut,
          WellFormed e.field ∧ WellFormed e.code ∧ WellFormed e.message)
        ↔ ∀ e ∈ r.fields.take ERROR_FIELDS_MAX, FieldError.Uncut e := by
      rw [List.forall_mem_map]
      refine forall₂_congr fun e he => ?_
      obtain ⟨hf, hc, hm⟩ := hw.2.2 e (List.mem_of_mem_take he)
      exact and_congr (Utf8.wellFormed_take_iff hf _)
        (and_congr (Utf8.wellFormed_take_iff hc _) (Utf8.wellFormed_take_iff hm _))
    have hown : WellFormed (if r.code.take (CODE_LEN - 1) = [] then errorCodeForStatus status
        else r.code.take (CODE_LEN - 1)) ↔ Whole (CODE_LEN - 1) r.code := by
      rw [← Utf8.wellFormed_take_iff hw.1]
      by_cases hnil : r.code.take (CODE_LEN - 1) = []
      · rw [if_pos hnil, hnil]
        exact iff_of_true hcode Utf8.wellFormed_nil
      · rw [if_neg hnil]
    rw [if_pos hactive, if_pos hactive, hfields, hown, Utf8.wellFormed_take_iff hw.2.1]
  · rw [if_neg hactive, if_neg hactive]
    have hother := Utf8.wellFormed_take_iff hmessage RUNTIME_MAX_TEXT
    exact ⟨fun h => hother.mp h.2.1, fun h => ⟨hcode, hother.mpr h, fun _ he => nomatch he⟩⟩

theorem items_length {vs : List Value} : ∀ {ws : List Value}, items vs = items ws →
    vs.length = ws.length := by
  induction vs with
  | nil =>
      intro ws h
      cases ws with
      | nil => rfl
      | cons w ws => exact nomatch h
  | cons v vs ih =>
      intro ws h
      cases ws with
      | nil => exact nomatch h
      | cons w ws => exact congrArg (· + 1) (ih (Tree.cons.inj h).2.2)

/-- Replies that say the same list as many fields. -/
theorem Reply.fields_length {r r' : Reply} (h : r.value = r'.value) :
    r.fields.length = r'.fields.length := by
  have hmembers := eq_of_heq (Tree.container.inj h).2
  have hfields := (Tree.cons.inj (Tree.cons.inj (Tree.cons.inj (Tree.cons.inj
    hmembers).2.2).2.2).2.2).2.1
  have hlen := items_length (eq_of_heq (Tree.container.inj hfields).2)
  rw [List.length_map, List.length_map] at hlen
  exact hlen

/-- **A reply is the JSON object of the failure exactly where no text that it
    prints was cut inside a character.**  The failure is that of its status: with
    another status the reply has no field errors to list. -/
theorem failure_reply_iff {calls : List Call} (hcalls : ∀ c ∈ calls, c.Valid) {status : Int}
    (hstatus : IsInt status) {message : Option Bytes}
    (hmessage : ∀ text, message = some text → WellFormed (cstr text)) {cap : Nat} {out : Bytes}
    (hout : errorJsonWrite (failureOf calls) status message cap = some out) :
    (∃ code error : Bytes, Says out (Reply.value ⟨status, code, error,
        ((reported calls).fields.take ERROR_FIELDS_MAX).map FieldError.cut,
        decide (ERROR_FIELDS_MAX < (reported calls).fields.length)⟩))
      ↔ Uncut (reported calls) status message
        ∧ (((reported calls).status : Int) = status ∨ (reported calls).fields = []) := by
  have h0 := reported_no_nul calls
  have hother : WellFormed (otherError message) := by
    cases message with
    | none => exact Utf8.wellFormed_of_ascii (by decide)
    | some text => exact hmessage text rfl
  have htexts := replyTexts_iff h0 (reported_wellFormed hcalls) hother status
  rw [failureOf_eq hcalls, errorJsonWrite_eq _ hstatus] at hout
  split at hout
  · obtain rfl := Option.some.inj hout
    constructor
    · rintro ⟨code, error, hsays⟩
      have hw := Reply.texts_of_says hsays
      have hsame := says_unique hsays ((Reply.says_iff _).mpr hw)
      refine ⟨htexts.mp hw, ?_⟩
      by_cases hactive : ((reported calls).status : Int) = status
      · exact .inl hactive
      · have hlen := Reply.fields_length hsame
        rw [replyOf_kept h0, if_neg hactive, List.length_map, List.length_take] at hlen
        change min 16 _ = 0 at hlen
        exact .inr (List.length_eq_zero_iff.mp (by omega))
    · rintro ⟨huncut, hfields⟩
      have hsays := (Reply.says_iff _).mpr (htexts.mpr huncut)
      have hreply := replyOf_kept h0 status message
      by_cases hactive : ((reported calls).status : Int) = status
      · rw [if_pos hactive] at hreply
        rw [hreply] at hsays ⊢
        exact ⟨_, _, hsays⟩
      · rw [if_neg hactive] at hreply
        have hnil := hfields.resolve_left hactive
        rw [hreply] at hsays ⊢
        rw [hnil]
        exact ⟨_, _, hsays⟩
  · exact nomatch hout

/-- A failed validation of one field, with a line feed in its message. -/
theorem failure_reply_iff_field :
    ∃ out, errorJsonWrite (failureOf [.fieldError (lit "a") (lit "b") (lit "c\n")]) 400 none 16384
        = some out
      ∧ ∃ code error : Bytes, Says out
          (Reply.value ⟨400, code, error, [⟨lit "a", lit "b", lit "c\n"⟩], false⟩) := by
  have hcalls : ∀ c ∈ [Call.fieldError (lit "a") (lit "b") (lit "c\n")], c.Valid := by
    intro c hc
    obtain rfl := List.mem_singleton.mp hc
    exact ⟨trivial, Utf8.wellFormed_of_ascii (by decide), Utf8.wellFormed_of_ascii (by decide),
      Utf8.wellFormed_of_ascii (by decide)⟩
  obtain ⟨out, hout⟩ := Option.isSome_iff_exists.mp (show (errorJsonWrite (failureOf
    [.fieldError (lit "a") (lit "b") (lit "c\n")]) 400 none 16384).isSome = true by decide +kernel)
  exact ⟨out, hout, (@failure_reply_iff _ hcalls 400 ⟨by decide, by decide⟩ none (fun _ h => nomatch h) _ _ hout).mpr
    ⟨by decide, .inl rfl⟩⟩

/-- A message whose 127th byte begins a character of two bytes. -/
def splitMessage : Bytes := List.replicate 126 0x61 ++ [0xC3, 0xA9]

/-- The reply to that message says nothing. -/
theorem split_message_refused :
    WellFormed splitMessage
      ∧ ∃ out, errorJsonWrite (failureOf [.fail 400 (some splitMessage)]) 400 none 16384 = some out
        ∧ ∀ v, ¬ Says out v := by
  have hw : WellFormed splitMessage := by
    obtain ⟨c, -, hc⟩ := @Utf8.exists_two 0xC3 0xA9 (by decide) (by decide)
    refine (Utf8.wellFormed_of_ascii fun b hb => ?_).append (hc ▸ Utf8.wellFormed_encode c)
    rw [List.eq_of_mem_replicate hb]
    decide
  refine ⟨hw, (replyOf (failureOf [.fail 400 (some splitMessage)]) 400 none).value.print escape,
    ?_, fun v hsays => ?_⟩
  · rw [errorJsonWrite_eq _ ⟨by decide, by decide⟩, if_pos (by decide +kernel)]
  · have htexts := (Reply.texts_of_says hsays).2.1
    have herror : (replyOf (failureOf [.fail 400 (some splitMessage)]) 400 none).error
        = splitMessage.take 127 := by decide +kernel
    rw [herror, Utf8.wellFormed_take_iff hw] at htexts
    exact absurd htexts (by decide +kernel)

end ErrorReply

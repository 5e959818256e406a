import Gargantua.RuntimeTypes

/-! # Request failures (`src/runtime/runtime_error.c`)

    A request records at most one failure: a status, a message and a code.  The
    failure of a validation also lists the fields that are wrong.  A buffer that
    holds a C string is that string, and the table with its count is the list of
    the entries in use. -/

namespace RuntimeError

open CString RuntimeTypes

/-- `FAIL_MESSAGE_LEN`, `ERROR_FIELDS_MAX`, the size of a field path and the sizes
    of the buffers for a code. -/
abbrev FAIL_MESSAGE_LEN : Nat := 128
abbrev ERROR_FIELDS_MAX : Nat := 16
abbrev FIELD_PATH_LEN : Nat := NEST_DEPTH_MAX * 65
abbrev CODE_LEN : Nat := 32

/-- `snprintf(buf, cap, "%s", text)`. -/
def snprintf (cap : Nat) (text : Bytes) : Bytes := (cstr text).take (cap - 1)

/-- `FieldError`. -/
structure FieldError where
  field : Bytes
  code : Bytes
  message : Bytes
  deriving Repr, DecidableEq

/-- `g_fail_status`, `g_fail_msg`, `g_error_code`, `g_errors` up to
    `g_error_count`, and `g_error_truncated`. -/
structure Failure where
  status : Nat := 0
  message : Bytes := []
  code : Bytes := []
  errors : List FieldError := []
  truncated : Bool := false
  deriving Repr, DecidableEq

/-- `request_failed`. -/
def requestFailed (f : Failure) : Bool := f.status != 0

/-- `request_fail`. -/
def requestFail (f : Failure) (status : Nat) (message : Option Bytes) : Failure :=
  if f.status ≠ 0 then f
  else
    { f with
      status := status
      message := (message.elim [] cstr).take (FAIL_MESSAGE_LEN - 1) }

/-- `request_fail_code`. -/
def requestFailCode (f : Failure) (status : Nat) (code message : Bytes) : Failure :=
  if requestFailed f then f
  else { requestFail f status (some message) with code := snprintf CODE_LEN code }

/-- `field_error_add`. -/
def fieldErrorAdd (f : Failure) (field code message : Bytes) : Failure :=
  if requestFailed f && f.code != lit "validation_failed" then f
  else
    let f := requestFailCode f 400 (lit "validation_failed") (lit "request validation failed")
    if f.errors.length ≥ ERROR_FIELDS_MAX then { f with truncated := true }
    else
      { f with
        errors := f.errors ++ [{
          field := snprintf FIELD_PATH_LEN field
          code := snprintf CODE_LEN code
          message := snprintf FAIL_MESSAGE_LEN message }] }

/-- `request_fail_reset`, without `body_reset`. -/
def requestFailReset (_ : Failure) : Failure := {}

/-! ## What a failure keeps -/

/-- The first failure of a request stays. -/
theorem requestFail_of_failed {f : Failure} (h : requestFailed f = true) (status : Nat)
    (message : Option Bytes) : requestFail f status message = f :=
  if_pos (bne_iff_ne.mp h)

theorem requestFailCode_of_failed {f : Failure} (h : requestFailed f = true) (status : Nat)
    (code message : Bytes) : requestFailCode f status code message = f :=
  if_pos h

theorem requestFailCode_status {f : Failure} (h : requestFailed f = false) (status : Nat)
    (code message : Bytes) : (requestFailCode f status code message).status = status := by
  have h0 : f.status = 0 := by
    rw [requestFailed, bne_eq_false_iff_eq] at h
    exact h
  rw [requestFailCode, if_neg (by rw [h]; exact Bool.false_ne_true), requestFail,
    if_neg (fun hne => hne h0)]

/-- The status does not change once it is set, and a field error sets `400`. -/
theorem fieldErrorAdd_status (f : Failure) (field code message : Bytes) :
    (fieldErrorAdd f field code message).status
      = if requestFailed f then f.status else 400 := by
  rw [fieldErrorAdd]
  cases hf : requestFailed f with
  | true =>
      rw [requestFailCode_of_failed hf, if_pos rfl]
      dsimp only
      split_ifs <;> rfl
  | false =>
      have h400 := requestFailCode_status hf 400 (lit "validation_failed")
        (lit "request validation failed")
      rw [Bool.false_and, if_neg Bool.false_ne_true, if_neg Bool.false_ne_true]
      dsimp only
      split_ifs
      · exact h400
      · exact h400

/-- Every error names its field. -/
theorem fieldErrorAdd_errors {f : Failure} (h : requestFailed f = false) (hnone : f.errors = [])
    (field code message : Bytes) :
    (fieldErrorAdd f field code message).errors
      = [{ field := snprintf FIELD_PATH_LEN field, code := snprintf CODE_LEN code
           message := snprintf FAIL_MESSAGE_LEN message }] := by
  have herr : (requestFailCode f 400 (lit "validation_failed")
      (lit "request validation failed")).errors = [] := by
    rw [requestFailCode, h, if_neg Bool.false_ne_true, requestFail]
    split_ifs <;> exact hnone
  rw [fieldErrorAdd, h, Bool.false_and, if_neg Bool.false_ne_true]
  dsimp only
  rw [herr, if_neg (by decide)]
  rfl

end RuntimeError

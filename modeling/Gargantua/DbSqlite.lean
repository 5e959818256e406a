import Gargantua.Lib.CString
import Gargantua.Lib.Savepoint

/-! # The database client (`src/db/db_sqlite.c`)

    One thread's use of the shared connection: the data calls `db_execute`,
    `db_insert_id`, `db_query_one` and `db_query_many`, and the transaction
    calls `db_begin`, `db_commit`, `db_rollback` and `db_abort_all`, with the
    thread variables they keep between them (`t_depth`, `t_failed_level`,
    `g_last_id`) and the request failure they may record.

    SQLite is outside: what it answers is an argument of each call, one reply
    for each statement it is asked to run, over the engine of `Savepoint`.  A
    data statement's effect on the database is any function, also when it fails
    half way (`OR FAIL`), and any failure may have rolled the whole transaction
    back.  Whether `type_valid` and `row_to_struct` accept their argument is an
    input here. -/

namespace DbSqlite

open CString Savepoint

/-- `DB_MAX_ARGS`, `DB_MAX_SQL`, `SQLITE_MAX_ROWS`, the deepest nesting of
    `db_begin`, `FAIL_MESSAGE_LEN` and `INT_MAX`. -/
abbrev DB_MAX_ARGS : Nat := 64
abbrev DB_MAX_SQL : Nat := 8192
abbrev SQLITE_MAX_ROWS : Nat := 4096
abbrev MAX_DEPTH : Nat := 16
abbrev FAIL_MESSAGE_LEN : Nat := 128
abbrev INT_MAX : Int := 2 ^ 31 - 1
abbrev INT_MIN : Int := -2 ^ 31

/-- SQLite's result codes, as far as the client looks at them. -/
abbrev SQLITE_ERROR : Nat := 1
abbrev SQLITE_BUSY : Nat := 5
abbrev SQLITE_LOCKED : Nat := 6
abbrev SQLITE_INTERRUPT : Nat := 9
abbrev SQLITE_FULL : Nat := 13
abbrev SQLITE_CONSTRAINT : Nat := 19
abbrev SQLITE_MISUSE : Nat := 21
abbrev SQLITE_ROW : Nat := 100
abbrev SQLITE_DONE : Nat := 101
abbrev SQLITE_CONSTRAINT_FOREIGNKEY : Nat := 787
abbrev SQLITE_CONSTRAINT_PRIMARYKEY : Nat := 1555
abbrev SQLITE_CONSTRAINT_UNIQUE : Nat := 2067

/-- The failure a request has recorded: `g_fail_status`, `g_error_code`,
    `g_fail_msg`. -/
structure Failure where
  status : Nat
  code : Bytes
  message : Bytes
  deriving Repr, DecidableEq

/-- `g_db_lock` as this thread holds it; `broken` is an acquire of a held lock or
    a release of one that is not held. -/
inductive Lock where
  | free
  | held
  | broken
  deriving Repr, DecidableEq

def Lock.acquire : Lock → Lock
  | .free => .held
  | _ => .broken

def Lock.release : Lock → Lock
  | .held => .free
  | _ => .broken

/-- The database, the connection and one thread's variables.  `isOpen` is
    `g_db != NULL`, `active` is `request_active()`. -/
structure State (D : Type) where
  db : Db D
  isOpen : Bool
  depth : Nat
  failedLevel : Nat
  lastId : Int
  lock : Lock
  active : Bool
  fail : Option Failure
  deriving Repr, DecidableEq

variable {D : Type}

/-! ## The request failure -/

/-- `request_fail`: the first failure stays. -/
def requestFail (status : Nat) (message : Bytes) (s : State D) : State D :=
  match s.fail with
  | some _ => s
  | none =>
      { s with fail := some ⟨status, [], message.take (FAIL_MESSAGE_LEN - 1)⟩ }

/-- `request_fail_code`. -/
def requestFailCode (status : Nat) (code message : Bytes) (s : State D) : State D :=
  match s.fail with
  | some _ => s
  | none =>
      { s with fail := some ⟨status, code.take 31, message.take (FAIL_MESSAGE_LEN - 1)⟩ }

/-- `db_failure`, `code` being `sqlite3_extended_errcode`. -/
def dbFailure (code : Nat) (s : State D) : State D :=
  if !s.active then s
  else if code = SQLITE_CONSTRAINT_UNIQUE ∨ code = SQLITE_CONSTRAINT_PRIMARYKEY then
    requestFailCode 409 (lit "unique_conflict")
      (lit "a record with this value already exists") s
  else if code = SQLITE_CONSTRAINT_FOREIGNKEY then
    requestFailCode 409 (lit "reference_conflict")
      (lit "operation conflicts with a related record") s
  else if code % 256 = SQLITE_CONSTRAINT then
    requestFailCode 409 (lit "constraint_conflict")
      (lit "operation violates a database constraint") s
  else if code % 256 = SQLITE_BUSY ∨ code % 256 = SQLITE_LOCKED
      ∨ code % 256 = SQLITE_INTERRUPT ∨ code % 256 = SQLITE_FULL then
    requestFailCode 503 (lit "database_unavailable")
      (lit "database temporarily unavailable") s
  else
    requestFailCode 500 (lit "database_error") (lit "database operation failed") s

/-! ## The lock -/

/-- How the attempts of `db_lock` end: it gets the lock, it runs out of time (or
    `trylock` fails otherwise), or the clock fails or the loop runs out. -/
inductive LockReply where
  | acquired
  | busy
  | gaveUp
  deriving Repr, DecidableEq

/-- `db_lock`. -/
def dbLock (r : LockReply) (s : State D) : State D × Bool :=
  if s.depth > 0 then (s, true)
  else
    match r with
    | .acquired => ({ s with lock := s.lock.acquire }, true)
    | .busy =>
        (if s.active then
          requestFailCode 503 (lit "database_unavailable")
            (lit "database temporarily unavailable") s
        else s, false)
    | .gaveUp => (s, false)

/-- `db_unlock`. -/
def dbUnlock (s : State D) : State D :=
  if s.depth = 0 then { s with lock := s.lock.release } else s

/-! ## Statements -/

/-- `SqlArg`, as far as binding depends on it: its kind, and whether a double is
    finite. -/
inductive SqlArg where
  | null
  | text (s : Option Bytes)
  | int
  | bool
  | long
  | double (finite : Bool)
  | other
  deriving Repr, DecidableEq

/-- The arguments of a data call; `none` is a null pointer. -/
structure Query where
  sql : Option Bytes
  args : Option (List SqlArg)
  nargs : Int
  deriving Repr, DecidableEq

/-- What one `sqlite3_step` does: a row (with its first column, when that is an
    integer, and whether `row_to_struct` accepts it), the end of the statement,
    an error, or an error that rolled the transaction back. -/
inductive StepReply (D : Type) where
  | row (effect : D → D) (column : Option Int) (decodes : Bool)
  | done (effect : D → D)
  | error (code : Nat) (effect : D → D)
  | rolledBack (code : Nat)

/-- The result code of a step. -/
def StepReply.code : StepReply D → Nat
  | .row _ _ _ => SQLITE_ROW
  | .done _ => SQLITE_DONE
  | .error code _ => code
  | .rolledBack code => code

/-- What a step does to the database. -/
def StepReply.apply (r : StepReply D) (db : Db D) : Db D :=
  match r with
  | .row effect _ _ => db.write effect
  | .done effect => db.write effect
  | .error _ effect => db.write effect
  | .rolledBack _ => db.drop

/-- A prepared statement: its placeholders and their binding, what it is, the
    replies of its steps, and what SQLite says after it. -/
structure Stmt (D : Type) where
  params : Nat
  binds : Nat → Bool
  readonly : Bool
  columns : Nat
  steps : List (StepReply D)
  changes : Nat
  rowid : Int
  finalize : Nat

/-- A step past the last reply is a misuse of the statement. -/
def nextStep (steps : List (StepReply D)) : StepReply D × List (StepReply D) :=
  match steps with
  | [] => (.error SQLITE_MISUSE id, [])
  | r :: rest => (r, rest)

/-- What `sqlite3_prepare_v2` answers: an error, or a statement (a null pointer
    for a text without one) and the text behind it. -/
inductive Prepare (D : Type) where
  | error (code : Nat)
  | ok (stmt : Option (Stmt D)) (tail : Bytes)

/-- What the outside answers during one data call. -/
structure Answers (D : Type) where
  lock : LockReply
  libversion : Nat
  prepare : Prepare D

/-- The check on the failed level that stands before every `-1` of a statement:
    the first failure of the open levels is remembered. -/
def mark (s : State D) : State D :=
  if s.depth ≠ 0 ∧ s.failedLevel = 0 then { s with failedLevel := s.depth } else s

/-- The kinds that `bind_arguments` knows. -/
def SqlArg.bindable : SqlArg → Bool
  | .double finite => finite
  | .other => false
  | _ => true

/-- `bind_arguments`. -/
def bindArguments (binds : Nat → Bool) : Nat → List SqlArg → Bool
  | _, [] => true
  | i, a :: as => a.bindable && binds i && bindArguments binds (i + 1) as

def isBlank (c : Byte) : Bool := c == 0x20 || c == 0x09 || c == 0x0D || c == 0x0A

/-- `prepare_statement`. -/
def prepareStatement (sql : Bytes) (args : List SqlArg) (nargs : Int) (p : Prepare D)
    (s : State D) : State D × Option (Stmt D) :=
  if !s.isOpen then (mark s, none)
  else if (cstr sql).length ≥ DB_MAX_SQL then (mark s, none)
  else if s.depth > 0 ∧ s.db.autocommit = true then (mark s, none)
  else
    match p with
    | .error code => (mark (dbFailure code s), none)
    | .ok none _ => (mark s, none)
    | .ok (some st) tail =>
        if (cstr tail).dropWhile isBlank ≠ [] then (mark s, none)
        else if (st.params : Int) ≠ nargs then (mark s, none)
        else if !bindArguments st.binds 0 ((args.take nargs.toNat).take DB_MAX_ARGS) then
          (mark s, none)
        else (s, some st)

/-- `INSERT` and a blank, behind leading blanks. -/
def startsWithInsert (sql : Bytes) : Bool :=
  let start := (cstr sql).dropWhile isBlank
  strncasecmpEq 6 start (lit "INSERT") && isBlank ((start.drop 6).headD 0)

/-- The argument checks that the data calls share: `nargs` in range, and an array
    behind it. -/
def argsOk (q : Query) : Bool :=
  0 ≤ q.nargs && q.nargs ≤ (DB_MAX_ARGS : Int) && !(0 < q.nargs && q.args.isNone)

/-- `db_execute`. -/
def dbExecute (q : Query) (a : Answers D) (s : State D) : State D × Int :=
  match q.sql with
  | none => (s, -1)
  | some sql =>
      if !argsOk q then (s, -1)
      else
        match dbLock a.lock s with
        | (s, false) => (s, -1)
        | (s, true) =>
            match prepareStatement sql (q.args.getD []) q.nargs a.prepare
                { s with lastId := -1 } with
            | (s, none) => (dbUnlock s, -1)
            | (s, some st) =>
                let r := (nextStep st.steps).1
                let s := { s with db := r.apply s.db }
                match r with
                | .error code _ => (dbUnlock (dbFailure code (mark s)), -1)
                | .rolledBack code => (dbUnlock (dbFailure code (mark s)), -1)
                | _ =>
                    let lastId :=
                      if st.changes > 0 ∧ startsWithInsert sql = true ∧ INT_MIN ≤ st.rowid
                          ∧ st.rowid ≤ INT_MAX then st.rowid else s.lastId
                    (dbUnlock { s with lastId := lastId }, st.changes)

/-- The steps of `db_insert_id`: one row with an `int` above zero and then the
    end, with one row changed.  The result is the id or `-1`, the code of the
    last step, and the database after them. -/
def insertSteps (st : Stmt D) (db : Db D) : Int × Nat × Db D :=
  if st.readonly || st.columns != 1 then (-1, 0, db)
  else
    let (r, rest) := nextStep st.steps
    let db := r.apply db
    match r with
    | .row _ (some value) _ =>
        if 0 < value ∧ value ≤ INT_MAX then
          let r := (nextStep rest).1
          let db := r.apply db
          match r with
          | .done _ => (if st.changes = 1 then value else -1, r.code, db)
          | _ => (-1, r.code, db)
        else (-1, r.code, db)
    | _ => (-1, r.code, db)

/-- `db_insert_id`. -/
def dbInsertId (q : Query) (a : Answers D) (s : State D) : State D × Int :=
  let s := { s with lastId := -1 }
  match q.sql with
  | none => (s, -1)
  | some sql =>
      if !argsOk q ∨ a.libversion < 3035000 then (s, -1)
      else if (cstr sql).length ≥ DB_MAX_SQL then (s, -1)
      else if !startsWithInsert sql then (s, -1)
      else
        match dbLock a.lock s with
        | (s, false) => (s, -1)
        | (s, true) =>
            match prepareStatement sql (q.args.getD []) q.nargs a.prepare s with
            | (s, none) => (dbUnlock s, -1)
            | (s, some st) =>
                let (id, code, db) := insertSteps st s.db
                let s := { s with db := db }
                let s := if id < 0 then dbFailure code s else s
                let (s, id) :=
                  if st.finalize ≠ 0 then (dbFailure st.finalize s, -1) else (s, id)
                let s := if id < 0 then mark s else s
                (dbUnlock { s with lastId := id }, id)

/-- `db_query_one`; `valid` is `type_valid(type)` and `out != NULL`. -/
def dbQueryOne (valid : Bool) (q : Query) (a : Answers D) (s : State D) :
    State D × Int :=
  match q.sql with
  | none => (s, -1)
  | some sql =>
      if !valid || !argsOk q then (s, -1)
      else
        match dbLock a.lock s with
        | (s, false) => (s, -1)
        | (s, true) =>
            match prepareStatement sql (q.args.getD []) q.nargs a.prepare s with
            | (s, none) => (dbUnlock s, -1)
            | (s, some st) =>
                let r := (nextStep st.steps).1
                let s := { s with db := r.apply s.db }
                match r with
                | .row _ _ decodes =>
                    let found : Int := if decodes then 1 else -1
                    let s := dbUnlock s
                    (if found < 0 then mark s else s, found)
                | .done _ => (dbUnlock s, 0)
                | _ => (dbUnlock (mark (dbFailure r.code s)), -1)

/-- How the row loop of `db_query_many` ends: a row that `row_to_struct` refuses,
    the end of the rows or of the room for them, or an error. -/
inductive RowsEnd where
  | badRow
  | rows (count : Nat)
  | error (code : Nat)
  deriving Repr, DecidableEq

/-- The row loop of `db_query_many`; `room` is `max - count`. -/
def queryRows : Nat → Nat → List (StepReply D) → Db D → RowsEnd × Db D
  | 0, count, _, db => (.rows count, db)
  | room + 1, count, steps, db =>
      let (r, rest) := nextStep steps
      let db := r.apply db
      match r with
      | .row _ _ decodes =>
          if decodes then queryRows room (count + 1) rest db else (.badRow, db)
      | .done _ => (.rows count, db)
      | _ => (.error r.code, db)

/-- `db_query_many`; `valid` is `type_valid(type)` and `rows != NULL`. -/
def dbQueryMany (valid : Bool) (max : Int) (q : Query) (a : Answers D) (s : State D) :
    State D × Int :=
  match q.sql with
  | none => (s, -1)
  | some sql =>
      if !valid || !argsOk q || max ≤ 0 || max > (SQLITE_MAX_ROWS : Int) then (s, -1)
      else
        match dbLock a.lock s with
        | (s, false) => (s, -1)
        | (s, true) =>
            match prepareStatement sql (q.args.getD []) q.nargs a.prepare s with
            | (s, none) => (dbUnlock s, -1)
            | (s, some st) =>
                match queryRows max.toNat 0 st.steps s.db with
                | (.badRow, db) => (dbUnlock (mark { s with db := db }), -1)
                | (.rows count, db) => (dbUnlock { s with db := db }, count)
                | (.error code, db) =>
                    (mark (dbUnlock (dbFailure code { s with db := db })), -1)

/-! ## Transactions -/

/-- What SQLite answers to a control text of one or two statements, and the
    error code of a failure. -/
structure ControlAnswer where
  first : Reply := .success
  second : Reply := .success
  code : Nat := SQLITE_ERROR
  deriving Repr, DecidableEq

/-- `run_control_statement`. -/
def runControlStatement (cs : List (Control × Reply)) (code : Nat) (s : State D) :
    State D × Bool :=
  if !s.isOpen then (dbFailure SQLITE_ERROR s, false)
  else
    match s.db.controls cs with
    | (db, true) => ({ s with db := db }, true)
    | (db, false) => (dbFailure code { s with db := db }, false)

/-- `db_begin`. -/
def dbBegin (lock : LockReply) (a : ControlAnswer) (s : State D) : State D × Int :=
  if s.depth ≥ MAX_DEPTH then (s, -1)
  else
    match dbLock lock s with
    | (s, false) => (s, -1)
    | (s, true) =>
        if !s.isOpen ∨ (s.depth > 0 ∧ s.db.autocommit = true) then (dbUnlock s, -1)
        else
          let c := if s.depth = 0 then Control.begin else .savepoint (s.depth + 1)
          match runControlStatement [(c, a.first)] a.code s with
          | (s, false) => (dbUnlock s, -1)
          | (s, true) => ({ s with depth := s.depth + 1 }, 0)

/-- `db_commit`. -/
def dbCommit (a : ControlAnswer) (s : State D) : State D × Int :=
  if s.depth = 0 ∨ s.failedLevel ≠ 0 ∨ !s.isOpen ∨ s.db.autocommit = true then (s, -1)
  else
    let c := if s.depth = 1 then Control.commit else .release s.depth
    match runControlStatement [(c, a.first)] a.code s with
    | (s, false) => (s, -1)
    | (s, true) => (dbUnlock { s with depth := s.depth - 1 }, 0)

/-- The text of `db_rollback`. -/
def rollbackText (depth : Nat) (a : ControlAnswer) : List (Control × Reply) :=
  if depth = 1 then [(.rollback, a.first)]
  else [(.rollbackTo depth, a.first), (.release depth, a.second)]

/-- `db_rollback`. -/
def dbRollback (a : ControlAnswer) (s : State D) : State D × Int :=
  if s.depth = 0 ∨ !s.isOpen then (s, -1)
  else
    match (if !s.db.autocommit then runControlStatement (rollbackText s.depth a) a.code s
           else (s, true)) with
    | (s, false) => (s, -1)
    | (s, true) =>
        let failedLevel := if s.failedLevel ≥ s.depth then 0 else s.failedLevel
        -- a transaction that SQLite has ended takes every level with it
        let depth := if s.db.autocommit then 0 else s.depth - 1
        (dbUnlock { s with failedLevel := failedLevel, depth := depth }, 0)

/-- `db_abort_all`. -/
def dbAbortAll (a : ControlAnswer) (s : State D) : State D :=
  if s.depth = 0 then s
  else
    match runControlStatement [(.rollback, a.first)] a.code s with
    | (s, ok) =>
        let s :=
          if !ok && !s.db.autocommit then { s with db := s.db.drop, isOpen := false }
          else s
        dbUnlock { s with depth := 0, failedLevel := 0 }

/-- `db_depth`. -/
def dbDepth (s : State D) : Nat := s.depth

/-- A data call with what the outside answers to it. -/
inductive Call (D : Type) where
  | execute (q : Query) (a : Answers D)
  | insertId (q : Query) (a : Answers D)
  | queryOne (valid : Bool) (q : Query) (a : Answers D)
  | queryMany (valid : Bool) (max : Int) (q : Query) (a : Answers D)

/-- The call and its return value. -/
def Call.run (c : Call D) (s : State D) : State D × Int :=
  match c with
  | .execute q a => dbExecute q a s
  | .insertId q a => dbInsertId q a s
  | .queryOne valid q a => dbQueryOne valid q a s
  | .queryMany valid max q a => dbQueryMany valid max q a s

end DbSqlite

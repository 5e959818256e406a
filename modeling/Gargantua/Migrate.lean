import Gargantua.Lib.SortedInsert
import Gargantua.DbSqlite

/-! # Migrations (`src/db/migrate.c`, `db_script` and `db_migration`)

    `migrate_run` reads a directory into an array sorted by version, and applies
    the array inside one transaction: the recorded rows must be a first part of
    it, the rest is run and recorded.

    SQLite is outside.  The bookkeeping statements do what their text says to
    the table `_gargantua_migrations`, or SQLite refuses them (`Env.refuse`).
    What a migration script does is unknown (`Env.compile`): each of its
    statements changes the rest of the database, never the table, and may fail.
    Reading a file yields its content. -/

namespace Migrate

open CString Savepoint DbSqlite SortedInsert

/-- `MIGRATE_MAX`, `MIGRATE_FILE_MAX`, `MIGRATE_TOTAL_MAX`, and the bounds of the
    directory loop and of the loop of `db_script`. -/
abbrev MIGRATE_MAX : Nat := 128
abbrev MIGRATE_FILE_MAX : Nat := 65536
abbrev MIGRATE_TOTAL_MAX : Nat := 1024 * 1024
abbrev SCAN_MAX : Nat := 1024
abbrev SCRIPT_MAX : Nat := 256

/-! ## Files -/

/-- `Migration`. -/
structure Migration where
  version : Nat
  name : Bytes
  sql : Bytes
  deriving Repr, DecidableEq

/-- A file as `openat` and `fstat` find it. -/
structure File where
  regular : Bool
  content : Bytes
  deriving Repr, DecidableEq

/-- A directory entry, its name a C string; `none` is a file that `openat` refuses
    to open, a symbolic link included. -/
structure DirEntry where
  name : Bytes
  noNul : (0 : Byte) ∉ name
  file : Option File
  deriving Repr, DecidableEq

def isDigit (c : Byte) : Bool := 0x30 ≤ c && c ≤ 0x39

/-- The digits of `migration_version`, at most `n` more of them: the value, and
    what follows the digits. -/
def versionDigits : Nat → Nat → Bytes → Option (Nat × Bytes)
  | 0, value, s => some (value, s)
  | _, value, [] => some (value, [])
  | n + 1, value, c :: s =>
      if isDigit c then
        let digit := c.toNat - 48
        if value > ((2 ^ 31 - 1) - digit) / 10 then none
        else versionDigits n (value * 10 + digit) s
      else some (value, c :: s)

/-- A character of a migration's name. -/
def isNameChar (c : Byte) : Bool :=
  (0x61 ≤ c && c ≤ 0x7A) || (0x41 ≤ c && c ≤ 0x5A) || isDigit c || c == 0x5F || c == 0x2D

/-- `migration_version`. -/
def migrationVersion (name : Bytes) : Option Nat :=
  if !(0x31 ≤ name.headD 0 && name.headD 0 ≤ 0x39) then none
  else
    match versionDigits 10 0 name with
    | none => none
    | some (version, rest) =>
        let i := name.length - rest.length
        if rest.take 2 ≠ lit "__" then none
        else if name.length ≤ i + 6 ∨ name.length ≥ 128
            ∨ name.drop (name.length - 4) ≠ lit ".sql" then none
        else if !((name.take (name.length - 4)).drop (i + 2)).all isNameChar then none
        else some version

/-- `read_sql`: a regular file of 1 to 65536 bytes within the total, without
    NUL. -/
def readSql (file : Option File) (total : Nat) : Option Bytes :=
  match file with
  | none => none
  | some f =>
      if f.regular = true ∧ 0 < f.content.length ∧ f.content.length ≤ MIGRATE_FILE_MAX
          ∧ f.content.length ≤ MIGRATE_TOTAL_MAX - total ∧ (0 : Byte) ∉ f.content
      then some f.content else none

/-- The entries the directory loop passes over. -/
def isSkipped (name : Bytes) : Bool :=
  name.head? == some 0x2E || name.length < 4
    || name.drop (name.length - 4) != lit ".sql"

/-- The directory loop of `migrate_run`; `scan` is what is left of its 1024
    rounds, `readError` an error that `readdir` reports at its end. -/
def scanLoop (readError : Bool) : Nat → List DirEntry → List Migration → Nat →
    Option (List Migration)
  | 0, _, _, _ => none
  | _ + 1, [], files, _ => if readError then none else some files
  | scan + 1, entry :: entries, files, total =>
      if isSkipped entry.name then scanLoop readError scan entries files total
      else
        match migrationVersion entry.name with
        | none => none
        | some version =>
            let pos := insertPos Migration.version files version files.length
            if files.length ≥ MIGRATE_MAX then none
            else if taken Migration.version files version pos then none
            else
              match readSql entry.file total with
              | none => none
              | some sql =>
                  scanLoop readError scan entries
                    (insertAt files pos ⟨version, entry.name, sql⟩) (total + sql.length)

/-! ## The migrations table -/

/-- A row of `_gargantua_migrations`. -/
structure Row where
  version : Int
  name : Bytes
  sql : Bytes
  deriving Repr, DecidableEq

/-- The database: what scripts see and change, and the table, if it exists. -/
structure Store (U : Type) where
  user : U
  table : Option (List Row)
  deriving Repr, DecidableEq

variable {U : Type}

/-- The recorded rows. -/
def Store.rows (db : Store U) : List Row := db.table.getD []

/-- The row that records a file. -/
def Migration.row (m : Migration) : Row := ⟨m.version, m.name, m.sql⟩

/-! ## What SQLite answers -/

/-- How SQLite refuses a bookkeeping statement: when preparing it, at its step
    (maybe with the whole transaction), or when finalizing it. -/
inductive Refusal where
  | prepare (code : Nat)
  | step (code : Nat)
  | rollback (code : Nat)
  | finalize (code : Nat)
  deriving Repr, DecidableEq

/-- The bookkeeping statements; a version is looked up once to verify and once
    to apply. -/
inductive Bookkeeping where
  | create
  | count
  | select (version : Int) (apply : Bool)
  | insert (version : Int)
  deriving Repr, DecidableEq

/-- One statement of a script: what its step does, and whether `sqlite3_finalize`
    succeeds. -/
structure ScriptStep (U : Type) where
  reply : StepReply U
  finalizeOk : Bool

/-- `sqlite3_prepare_v2` at a place of a script: an error, or a statement (none
    for blanks and comments) and the number of bytes up to the tail. -/
inductive Compiled (U : Type) where
  | error
  | ok (stmt : Option (ScriptStep U)) (consumed : Nat)

/-- Everything outside during one run of `migrate_run`. -/
structure Env (U : Type) where
  lock : LockReply
  begin : ControlAnswer
  commit : ControlAnswer
  abort : ControlAnswer
  refuse : Bookkeeping → Option Refusal
  compile : Bytes → Store U → Compiled U

/-- A bookkeeping statement of `params` placeholders whose step is `reply`. -/
def Env.prepared (env : Env U) (b : Bookkeeping) (params changes : Nat)
    (reply : StepReply (Store U)) : Prepare (Store U) :=
  let stmt (reply : StepReply (Store U)) (finalize : Nat) : Prepare (Store U) :=
    .ok (some ⟨params, fun _ => true, false, 1, [reply], changes, 0, finalize⟩) []
  match env.refuse b with
  | none => stmt reply 0
  | some (.prepare code) => .error code
  | some (.step code) => stmt (.error code id) code
  | some (.rollback code) => stmt (.rolledBack code) code
  | some (.finalize code) => stmt reply code

/-- A script's step as a step on the database: it leaves the table alone. -/
def liftStep : StepReply U → StepReply (Store U)
  | .row f column decodes => .row (fun db => { db with user := f db.user }) column decodes
  | .done f => .done fun db => { db with user := f db.user }
  | .error code f => .error code fun db => { db with user := f db.user }
  | .rolledBack code => .rolledBack code

/-- `CREATE TABLE IF NOT EXISTS _gargantua_migrations (…)`. -/
def createReply : StepReply (Store U) := .done fun db => { db with table := some db.rows }

/-- `sqlite3_column_int`: the low 32 bits. -/
def columnInt (n : Nat) : Int := ((n : Int) + 2 ^ 31) % 2 ^ 32 - 2 ^ 31

/-- `SELECT count(*) FROM _gargantua_migrations`. -/
def countReply (db : Store U) : StepReply (Store U) :=
  .row id (some (columnInt db.rows.length)) true

/-- The row of a version. -/
def lookup (rows : List Row) (version : Int) : Option Row :=
  rows.find? fun r => r.version == version

/-- `SELECT name, sql FROM _gargantua_migrations WHERE version = ?`. -/
def selectReply (db : Store U) (version : Int) : StepReply (Store U) :=
  match lookup db.rows version with
  | some _ => .row id none true
  | none => .done id

/-- `INSERT INTO _gargantua_migrations(version,name,sql) VALUES (?,?,?)`: the
    version is the primary key. -/
def insertReply (db : Store U) (row : Row) : StepReply (Store U) :=
  match lookup db.rows row.version with
  | some _ => .error SQLITE_CONSTRAINT_PRIMARYKEY id
  | none => .done fun db => { db with table := some (db.rows ++ [row]) }

/-! ## `db_script`, `db_migration_count`, `db_migration` -/

/-- The loop of `db_script`. -/
def scriptLoop (env : Env U) : Nat → Bytes → State (Store U) → State (Store U) × Int
  | 0, cursor, s => (s, if cursor = [] then 0 else -1)
  | n + 1, cursor, s =>
      if cursor = [] then (s, 0)
      else
        match env.compile cursor s.db.content with
        | .error => (s, -1)
        | .ok stmt consumed =>
            if consumed = 0 then (s, -1)
            else
              match stmt with
              | none => scriptLoop env n (cursor.drop consumed) s
              | some st =>
                  let s := { s with db := (liftStep st.reply).apply s.db }
                  match st.reply, st.finalizeOk with
                  | .done _, true => scriptLoop env n (cursor.drop consumed) s
                  | _, _ => (s, -1)

/-- `db_script`. -/
def dbScript (env : Env U) (sql : Bytes) (s : State (Store U)) : State (Store U) × Int :=
  if s.depth = 0 ∨ s.isOpen = false then (s, -1)
  else scriptLoop env SCRIPT_MAX (cstr sql) s

/-- `db_migration_count`. -/
def dbMigrationCount (env : Env U) (s : State (Store U)) : State (Store U) × Int :=
  if s.depth = 0 then (s, -1)
  else
    let (s, rc) := dbExecute
      ⟨some (lit "CREATE TABLE IF NOT EXISTS _gargantua_migrations "
        ++ lit "(version INTEGER PRIMARY KEY, name TEXT NOT NULL, sql TEXT NOT NULL)"), none, 0⟩
      ⟨env.lock, 3035000, env.prepared .create 0 0 createReply⟩ s
    if rc < 0 then (s, -1)
    else
      match prepareStatement (lit "SELECT count(*) FROM _gargantua_migrations") [] 0
          (env.prepared .count 0 0 (countReply s.db.content)) s with
      | (s, none) => (s, -1)
      | (s, some st) =>
          let r := (nextStep st.steps).1
          let s := { s with db := r.apply s.db }
          if st.finalize ≠ 0 then (s, -1)
          else
            match r with
            | .row _ (some n) _ => (s, n)
            | _ => (s, -1)

/-- The comparison of a saved text with a given one: equal lengths, equal
    strings. -/
def sameText (saved given : Bytes) : Bool :=
  saved.length == (cstr given).length && cstr saved == cstr given

/-- `valid`, after the step that looks a version up has returned `code`: what it
    found is this file, or it found nothing. -/
def validStep (code : Nat) (saved : Option Row) (name sql : Bytes) : Bool :=
  if code = SQLITE_ROW then
    saved.any fun row => sameText row.name name && sameText row.sql sql
  else code == SQLITE_DONE

/-- `db_migration`. -/
def dbMigration (env : Env U) (version : Int) (name sql : Bytes) (apply : Bool)
    (s : State (Store U)) : State (Store U) × Int :=
  if s.depth = 0 ∨ version ≤ 0 then (s, -1)
  else
    let saved := lookup s.db.content.rows version
    match prepareStatement
        (lit "SELECT name, sql FROM _gargantua_migrations WHERE version = ?") [.int] 1
        (env.prepared (.select version apply) 1 0 (selectReply s.db.content version)) s with
    | (s, none) => (s, -1)
    | (s, some st) =>
        let r := (nextStep st.steps).1
        let s := { s with db := r.apply s.db }
        if st.finalize ≠ 0 ∨ validStep r.code saved name sql = false then (s, -1)
        else if r.code = SQLITE_ROW then (s, 1)
        else if apply = false then (s, 0)
        else
          let (s, rc) := dbScript env sql s
          if rc ≠ 0 then (s, -1)
          else
            let (s, rc) := dbExecute
              ⟨some (lit "INSERT INTO _gargantua_migrations(version,name,sql) VALUES (?,?,?)"),
                some [.int, .text (some name), .text (some sql)], 3⟩
              ⟨env.lock, 3035000, env.prepared (.insert version) 3 1
                (insertReply s.db.content ⟨version, cstr name, cstr sql⟩)⟩ s
            (s, if rc = 1 then 1 else -1)

/-! ## `migrate_run` -/

/-- The first loop of `apply_migrations`, over the files from the `i`th on: the
    first `applied` are recorded as they are, the others not at all. -/
def verifyLoop (env : Env U) (applied : Int) : Nat → List Migration → State (Store U) →
    State (Store U) × Bool
  | _, [], s => (s, true)
  | i, m :: ms, s =>
      let (s, result) := dbMigration env m.version m.name m.sql false s
      if result ≠ (if (i : Int) < applied then 1 else 0) then (s, false)
      else verifyLoop env applied (i + 1) ms s

/-- The second loop of `apply_migrations`. -/
def applyLoop (env : Env U) : List Migration → State (Store U) → State (Store U) × Bool
  | [], s => (s, true)
  | m :: ms, s =>
      let (s, result) := dbMigration env m.version m.name m.sql true s
      if result ≠ 1 then (s, false) else applyLoop env ms s

/-- `apply_migrations`. -/
def applyMigrations (env : Env U) (files : List Migration) (s : State (Store U)) :
    State (Store U) × Int :=
  let (s, rc) := dbBegin env.lock env.begin s
  if rc ≠ 0 then (s, -1)
  else
    let (s, applied) := dbMigrationCount env s
    if applied < 0 ∨ applied > files.length then (dbAbortAll env.abort s, -1)
    else
      match verifyLoop env applied 0 files s with
      | (s, false) => (dbAbortAll env.abort s, -1)
      | (s, true) =>
          match applyLoop env (files.drop applied.toNat) s with
          | (s, false) => (dbAbortAll env.abort s, -1)
          | (s, true) =>
              let (s, rc) := dbCommit env.commit s
              if rc ≠ 0 then (dbAbortAll env.abort s, -1) else (s, 0)

/-- The migrations directory: none configured, one that cannot be opened, or one
    whose entries come in this order. -/
inductive Directory where
  | unset
  | missing
  | listed (entries : List DirEntry) (readError closeError : Bool)
  deriving Repr, DecidableEq

/-- `migrate_run`. -/
def migrateRun (env : Env U) (dir : Directory) (s : State (Store U)) :
    State (Store U) × Int :=
  match dir with
  | .unset => (s, 0)
  | .missing => (s, -1)
  | .listed entries readError closeError =>
      match scanLoop readError SCAN_MAX entries [] 0 with
      | none => (s, -1)
      | some files =>
          if closeError then (s, -1) else applyMigrations env files s

end Migrate

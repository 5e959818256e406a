import Gargantua.CrudEmit
import Gargantua.DbCalls
import Gargantua.DbRow
import Gargantua.DbSearch

/-! # The generated functions of a table (`src/generator/generator_emit.c`)

    `$T_insert`, `$T_update`, `$T_save`, `$T_delete`, `$T_get` and `$T_exists`
    are a map from keys to records, kept in SQLite: whatever the calls and
    whatever SQLite refuses, each call either fails and changes nothing, or it
    does to the map what its name says (`crud_refines`).

    SQLite is outside.  `Sqlite` says what it answers during a call, and
    `Documented` that it runs a statement it does not refuse as the statement is
    meant. -/

namespace CrudRun

open CString GeneratorText GeneratorSource GeneratorEmit RuntimeTypes RuntimeObject ObjectFields
  TableTypes DbRow SqlTable CrudEmit Memory
open DbSearch (SqlArg SQL_INT)
open SqlWords (Word scan scan_quoted scan_trans words_blank)
open SqlText (quoted QUOTE)
open DbSqlite (State)
open Savepoint (Db)

/-! ## Arguments -/

/-- `SQL_LONG`, `SQL_DOUBLE`, `SQL_BOOL`, `SQL_TEXT` and `SQL_NULL`. -/
def SQL_LONG (v : Int) : SqlArg := { kind := some .long, l := v, s := some [] }
def SQL_DOUBLE (v : LongDouble) : SqlArg := { kind := some .double, d := v, s := some [] }
def SQL_BOOL (v : Bool) : SqlArg := { kind := some .bool, i := if v then 1 else 0, s := some [] }
def SQL_TEXT (v : Option Bytes) : SqlArg := { kind := some .str, s := v }
def SQL_NULL : SqlArg := {}

/-- What `bind_arguments` binds for an argument, if it binds it. -/
def bindArgument (a : SqlArg) : Option SqlValue :=
  match a.kind with
  | none => some .null
  | some .str => some (match a.s with
      | some s => .text (cstr s)
      | none => .null)
  | some .int => some (.integer a.i)
  | some .bool => some (.integer a.i)
  | some .long => some (.integer a.l)
  | some .double => if a.d.isFinite then some (.float a.d) else none
  | some .object => none

/-- An argument as the client of the database looks at it. -/
def shape (a : SqlArg) : DbSqlite.SqlArg :=
  match a.kind with
  | none => .null
  | some .str => .text a.s
  | some .int => .int
  | some .bool => .bool
  | some .long => .long
  | some .double => .double a.d.isFinite
  | some .object => .other

theorem shape_bindable (a : SqlArg) : (shape a).bindable = (bindArgument a).isSome := by
  unfold shape bindArgument
  split
  case h_6 => cases a.d.isFinite <;> rfl
  all_goals rfl

/-! ## SQLite -/

/-- Tables by their names. -/
abbrev Tables : Type := Database SqlValue

def values : Values SqlValue where
  int := .integer
  toInt
    | .integer n => some n
    | _ => none
  toInt_int := fun _ => rfl

/-- How a statement ends: an error that has changed nothing, or rows, the tables
    behind it, and how many rows it has changed. -/
inductive Ran where
  | error (code : Nat)
  | rows (rows : List Row) (tables : Tables) (changes : Nat)

/-- What SQLite, the lock in front of it and the arena behind it answer during a
    call; `fresh` is how SQLite chooses the key of a new row. -/
structure Sqlite where
  lock : DbSqlite.LockReply
  room : FieldInfo → Bool
  fresh : List Int → Int
  libversion : Nat
  prepare : Bytes → Tables → Except Nat Nat
  readonly : Bytes → Bool
  columns : Bytes → Nat
  run : Bytes → List SqlValue → Tables → Ran
  rowid : Int

/-- The tables with another one under a name. -/
def setTable (tables : Tables) (name : Bytes) (table : Table SqlValue) : Tables :=
  fun n => if n = name then some table else tables n

/-- SQLite does what a statement says, or refuses it, and a new key is new. -/
structure Documented (sq : Sqlite) : Prop where
  new : ∀ keys, sq.fresh keys ∉ keys
  positive : ∀ keys, (∀ k ∈ keys, 0 < k) → 0 < sq.fresh keys
  params : ∀ sql st tables n, readText sql = some st → sq.prepare sql tables = .ok n →
    n = st.params
  insert : ∀ sql t cs k, readText sql = some (.insert t cs k) →
    sq.readonly sql = false ∧ sq.columns sql = 1
  run : ∀ sql st vals tables, readText sql = some st → vals.length = st.params →
    (∃ code, sq.run sql vals tables = .error code)
      ∨ ∃ reply, tables.run values sq.fresh st vals = some reply
        ∧ sq.run sql vals tables
          = .rows reply.rows (setTable tables st.table reply.table) reply.changes

/-- The first column of a row, if it is an integer. -/
def firstInteger : Row → Option Int
  | (_, .integer n) :: _ => some n
  | _ => none

/-- The steps of a statement: what it writes, it writes in the first of them. -/
def stepsOf (decodes : Row → Bool) : Ran → List (DbSqlite.StepReply Tables)
  | .error code => [.error code id]
  | .rows [] tables _ => [.done fun _ => tables]
  | .rows (r :: rs) tables _ =>
      .row (fun _ => tables) (firstInteger r) (decodes r)
        :: (rs.map fun r => .row id (firstInteger r) (decodes r)) ++ [.done id]

def changesOf : Ran → Nat
  | .error _ => 0
  | .rows _ _ changes => changes

/-- What a call with these arguments is answered. -/
def answers (sq : Sqlite) (decodes : Row → Bool) (sql : Bytes) (args : List SqlArg)
    (tables : Tables) : DbSqlite.Answers Tables where
  lock := sq.lock
  libversion := sq.libversion
  prepare :=
    match sq.prepare sql tables with
    | .error code => .error code
    | .ok params =>
        let ran := sq.run sql (args.filterMap bindArgument) tables
        .ok (some {
          params := params
          binds := fun _ => true
          readonly := sq.readonly sql
          columns := sq.columns sql
          steps := stepsOf decodes ran
          changes := changesOf ran
          rowid := sq.rowid
          finalize := 0 }) []

/-- The text and the arguments of a call. -/
def query (sql : Bytes) (args : List SqlArg) : DbSqlite.Query where
  sql := some sql
  args := if args = [] then none else some (args.map shape)
  nargs := args.length

/-! ## Calls of the database -/

section Database

variable {sq : Sqlite} {decodes : Row → Bool} {sql : Bytes}
  {args : List SqlArg} {st : Statement} {s : State Tables}

theorem query_ok (h : args.length ≤ DbSqlite.DB_MAX_ARGS) :
    DbSqlite.argsOk (query sql args) = true := by
  have hcast : (args.length : Int) ≤ (DbSqlite.DB_MAX_ARGS : Int) := by exact_mod_cast h
  rw [DbSqlite.argsOk, query, decide_eq_true (Int.natCast_nonneg _), decide_eq_true hcast]
  cases args with
  | nil => rfl
  | cons a as =>
      rw [if_neg (List.cons_ne_nil a as), Option.isNone_some, Bool.and_false]
      rfl

theorem query_args : (query sql args).args.getD [] = args.map shape := by
  rw [query]
  cases args <;> rfl

/-- What `prepare_statement` lets through. -/
structure Prepared (args : List DbSqlite.SqlArg) (nargs : Int) (p : DbSqlite.Prepare Tables)
    (st : DbSqlite.Stmt Tables) : Prop where
  answer : ∃ tail, p = .ok (some st) tail
  params : (st.params : Int) = nargs
  binds : DbSqlite.bindArguments st.binds 0 ((args.take nargs.toNat).take DbSqlite.DB_MAX_ARGS) = true

/-- It refuses a statement, or lets it through and changes nothing. -/
theorem prepare_outcome (sql : Bytes) (args : List DbSqlite.SqlArg) (nargs : Int)
    (p : DbSqlite.Prepare Tables) (s : State Tables) :
    (∃ s', DbSqlite.prepareStatement sql args nargs p s = (s', none) ∧ s'.db = s.db)
      ∨ ∃ st, DbSqlite.prepareStatement sql args nargs p s = (s, some st)
        ∧ Prepared args nargs p st := by
  rcases DbCalls.prepareStatement_spec sql args nargs p s with
    ⟨s', hrun, -, hdb, -⟩ | ⟨st, tail, hrun, -, rfl⟩
  · exact Or.inl ⟨s', hrun, hdb⟩
  · have hno : ∀ {s' : State Tables}, (s', (none : Option (DbSqlite.Stmt Tables))) = (s, some st) →
        False := fun h => nomatch congrArg Prod.snd h
    refine Or.inr ⟨st, hrun, ⟨tail, rfl⟩, ?_, ?_⟩
    · by_contra hne
      rw [DbSqlite.prepareStatement] at hrun
      split_ifs at hrun
      all_goals first | contradiction | exact hno hrun
    · by_contra hne
      rw [Bool.not_eq_true] at hne
      rw [DbSqlite.prepareStatement, hne, Bool.not_false, if_pos rfl] at hrun
      split_ifs at hrun
      all_goals exact hno hrun

/-- A call behind its argument checks fails and changes nothing, or runs its
    statement. -/
theorem issue_outcome {a : DbSqlite.Answers Tables} {q : DbSqlite.Query}
    {pre : State Tables → State Tables} (hpre : ∀ s, (pre s).db = s.db)
    (body : DbSqlite.Stmt Tables → State Tables → State Tables × Int) (s : State Tables) :
    ((DbCalls.issue a sql q pre body s).2 = -1
        ∧ (DbCalls.issue a sql q pre body s).1.db = s.db)
      ∨ ∃ st s', Prepared (q.args.getD []) q.nargs a.prepare st ∧ s'.db = s.db
        ∧ DbCalls.issue a sql q pre body s = body st s' := by
  rw [DbCalls.issue]
  rcases DbCalls.dbLock_spec a.lock s with ⟨s', hlock, -, -, hdb, -⟩ | hlock
  · rw [hlock]
    exact Or.inl ⟨rfl, hdb⟩
  · rw [hlock]
    dsimp only
    rcases prepare_outcome sql (q.args.getD []) q.nargs a.prepare
        (pre { s with lock := if s.depth = 0 then s.lock.acquire else s.lock }) with
      ⟨s', hrun, hdb⟩ | ⟨st, hrun, hst⟩
    · rw [hrun]
      refine Or.inl ⟨rfl, ?_⟩
      dsimp only
      rw [DbCalls.dbUnlock_db, hdb, hpre]
    · rw [hrun]
      exact Or.inr ⟨st, pre { s with lock := if s.depth = 0 then s.lock.acquire else s.lock }, hst,
        hpre _, rfl⟩

/-- Every argument is bound, or the statement is not run. -/
theorem binds_all {binds : Nat → Bool} : ∀ {args : List SqlArg} {i : Nat},
    DbSqlite.bindArguments binds i (args.map shape) = true →
      (args.filterMap bindArgument).length = args.length
        ∧ ∀ a ∈ args, (bindArgument a).isSome = true
  | [], _, _ => ⟨rfl, fun _ ha => nomatch ha⟩
  | a :: args, i, h => by
      rw [List.map_cons, DbSqlite.bindArguments, Bool.and_eq_true, Bool.and_eq_true,
        shape_bindable] at h
      obtain ⟨⟨ha, -⟩, hrest⟩ := h
      obtain ⟨hlength, hall⟩ := binds_all hrest
      obtain ⟨v, hv⟩ := Option.isSome_iff_exists.mp ha
      refine ⟨?_, List.forall_mem_cons.mpr ⟨ha, hall⟩⟩
      rw [List.filterMap_cons_some hv, List.length_cons, List.length_cons, hlength]

/-- The statement of a call, its values, and how it ends. -/
structure Issued (sq : Sqlite) (decodes : Row → Bool) (sql : Bytes) (args : List SqlArg)
    (tables : Tables) (st : DbSqlite.Stmt Tables) (ran : Ran) : Prop where
  bound : (args.filterMap bindArgument).length = args.length
  ended : ran = sq.run sql (args.filterMap bindArgument) tables
  steps : st.steps = stepsOf decodes ran
  changes : st.changes = changesOf ran
  readonly : st.readonly = sq.readonly sql
  columns : st.columns = sq.columns sql
  finalize : st.finalize = 0

theorem issued (hargs : args.length ≤ DbSqlite.DB_MAX_ARGS) {tables : Tables}
    {stmt : DbSqlite.Stmt Tables}
    (h : Prepared ((query sql args).args.getD []) (query sql args).nargs
      (answers sq decodes sql args tables).prepare stmt) :
    (∃ n, sq.prepare sql tables = .ok n ∧ n = args.length)
      ∧ Issued sq decodes sql args tables stmt
        (sq.run sql (args.filterMap bindArgument) tables) := by
  obtain ⟨⟨tail, hok⟩, hparams, hbinds⟩ := h
  rw [query_args] at hbinds
  have hnargs : (query sql args).nargs.toNat = args.length := Int.toNat_natCast _
  have hall : ((args.map shape).take args.length).take DbSqlite.DB_MAX_ARGS = args.map shape := by
    rw [List.take_of_length_le (Nat.le_of_eq (List.length_map shape)), List.take_of_length_le]
    rw [List.length_map]
    exact hargs
  rw [hnargs, hall] at hbinds
  rw [answers] at hok
  dsimp only at hok
  cases hprepare : sq.prepare sql tables with
  | error code =>
      rw [hprepare] at hok
      cases hok
  | ok n =>
      rw [hprepare] at hok
      have hstmt := Option.some.inj (DbSqlite.Prepare.ok.inj hok).1
      subst hstmt
      refine ⟨⟨n, rfl, ?_⟩, (binds_all hbinds).1, rfl, rfl, rfl, rfl, rfl, rfl⟩
      have hn : (n : Int) = args.length := hparams
      exact_mod_cast hn

/-- SQLite and the lock in front of it refuse nothing, and every argument can be
    bound. -/
structure Willing (sq : Sqlite) (s : State Tables) (sql : Bytes) (args : List SqlArg) : Prop where
  lock : s.depth > 0 ∨ sq.lock = .acquired
  live : DbCalls.Live s
  version : 3035000 ≤ sq.libversion
  prepares : ∃ n, sq.prepare sql s.db.content = .ok n
  binds : ∀ a ∈ args, (bindArgument a).isSome = true
  runs : ∀ code, sq.run sql (args.filterMap bindArgument) s.db.content ≠ .error code

theorem binds_true : ∀ {args : List SqlArg} (i : Nat),
    (∀ a ∈ args, (bindArgument a).isSome = true) →
      DbSqlite.bindArguments (fun _ => true) i (args.map shape) = true
  | [], _, _ => rfl
  | a :: args, i, h => by
      rw [List.map_cons, DbSqlite.bindArguments, shape_bindable, h a List.mem_cons_self,
        binds_true (i + 1) fun b hb => h b (List.mem_cons_of_mem a hb)]
      rfl

/-- A call that nothing refuses runs its statement. -/
theorem issue_willing (hdoc : Documented sq) (hst : readText sql = some st)
    (hlength : args.length = st.params) (hargs : args.length ≤ DbSqlite.DB_MAX_ARGS)
    (hshort : (cstr sql).length < DbSqlite.DB_MAX_SQL) (h : Willing sq s sql args)
    {pre : State Tables → State Tables} (hpre : ∀ s, ∃ lastId, pre s = { s with lastId := lastId })
    (body : DbSqlite.Stmt Tables → State Tables → State Tables × Int) :
    ∃ stmt s', Issued sq decodes sql args s.db.content stmt
        (sq.run sql (args.filterMap bindArgument) s.db.content)
      ∧ s'.db = s.db ∧ DbCalls.issue (answers sq decodes sql args s.db.content) sql (query sql args)
        pre body s = body stmt s' := by
  obtain ⟨n, hn⟩ := h.prepares
  obtain ⟨hopen, hlive⟩ := h.live
  have hlock : ∃ s', DbSqlite.dbLock sq.lock s = (s', true) ∧ s'.db = s.db ∧ s'.isOpen = s.isOpen
      ∧ s'.depth = s.depth := by
    rw [DbSqlite.dbLock.eq_def]
    by_cases hd : s.depth > 0
    · rw [if_pos hd]
      exact ⟨s, rfl, rfl, rfl, rfl⟩
    · rw [if_neg hd, h.lock.resolve_left hd]
      exact ⟨_, rfl, rfl, rfl, rfl⟩
  obtain ⟨s', hs', hdb, hisOpen, hdepth⟩ := hlock
  obtain ⟨lastId, hlast⟩ := hpre s'
  have hargsLock : (answers sq decodes sql args s.db.content).lock = sq.lock := rfl
  have hnargs : (query sql args).nargs = ((args.length : Nat) : Int) := rfl
  have hparams : n = args.length := (hdoc.params sql st s.db.content n hst hn).trans hlength.symm
  have hbinds := @binds_true args 0 h.binds
  have hall : ((args.map shape).take args.length).take DbSqlite.DB_MAX_ARGS = args.map shape := by
    rw [List.take_of_length_le (Nat.le_of_eq (List.length_map shape)), List.take_of_length_le]
    rw [List.length_map]
    exact hargs
  have hprepare : ∃ stmt, (answers sq decodes sql args s.db.content).prepare = .ok (some stmt) []
      ∧ stmt.params = n ∧ stmt.binds = fun _ => true := by
    rw [answers]
    dsimp only
    rw [hn]
    exact ⟨_, rfl, rfl, rfl⟩
  obtain ⟨stmt, hok, hstmt, hstmtBinds⟩ := hprepare
  have hprepared : DbSqlite.prepareStatement sql ((query sql args).args.getD []) (query sql args).nargs
      (answers sq decodes sql args s.db.content).prepare (pre s') = (pre s', some stmt) := by
    rw [DbSqlite.prepareStatement.eq_def, hok, hlast]
    dsimp only
    rw [hisOpen, hopen, hdepth, hdb, Bool.not_true, if_neg Bool.false_ne_true,
      if_neg (Nat.not_le.mpr hshort), if_neg hlive, if_neg (by decide), hstmt, hparams, hnargs,
      if_neg (not_not.mpr rfl), Int.toNat_natCast, query_args, hall, hstmtBinds, hbinds,
      Bool.not_true, if_neg Bool.false_ne_true]
  have hissued := @issued sq decodes sql args hargs s.db.content stmt ⟨⟨[], hok⟩, by
    rw [hstmt, hparams, hnargs], by
    rw [hnargs, Int.toNat_natCast, query_args, hall, hstmtBinds, hbinds]⟩
  refine ⟨stmt, pre s', hissued.2, ?_, ?_⟩
  · rw [hlast, ← hdb]
  · rw [DbCalls.issue, hargsLock, hs']
    dsimp only
    rw [hprepared]

/-- **A call refuses, fails and changes nothing, or runs its statement.** -/
theorem issue_cases (hdoc : Documented sq) (hst : readText sql = some st)
    (hlength : args.length = st.params) (hargs : args.length ≤ DbSqlite.DB_MAX_ARGS)
    (hshort : (cstr sql).length < DbSqlite.DB_MAX_SQL)
    {pre : State Tables → State Tables} (hpre : ∀ s, ∃ lastId, pre s = { s with lastId := lastId })
    (body : DbSqlite.Stmt Tables → State Tables → State Tables × Int) {r : State Tables × Int}
    (hr : DbCalls.issue (answers sq decodes sql args s.db.content) sql (query sql args) pre body s
      = r) :
    (¬ Willing sq s sql args ∧ r.2 = -1 ∧ r.1.db = s.db)
      ∨ ∃ stmt s', Issued sq decodes sql args s.db.content stmt
          (sq.run sql (args.filterMap bindArgument) s.db.content)
        ∧ s'.db = s.db ∧ r = body stmt s' := by
  subst hr
  by_cases hwilling : Willing sq s sql args
  · exact Or.inr (issue_willing hdoc hst hlength hargs hshort hwilling hpre body)
  · have hpredb : ∀ s, (pre s).db = s.db := fun s => by
      obtain ⟨lastId, hlast⟩ := hpre s
      rw [hlast]
    rcases issue_outcome hpredb body s with h | ⟨stmt, s', hprep, hdb, hrun⟩
    · exact Or.inl ⟨hwilling, h⟩
    · exact Or.inr ⟨stmt, s', (issued hargs hprep).2, hdb, hrun⟩

/-! ### How the calls end -/

theorem content_write (db : Db Tables) (tables : Tables) :
    (db.write fun _ => tables).content = tables := by
  obtain ⟨disk, txn⟩ := db
  cases txn <;> rfl

/-- How a call ends: it refuses and changes nothing, or its statement is run, the
    tables are those behind it, and `result` is what the call makes of the reply. -/
def Ends (sq : Sqlite) (sql : Bytes) (args : List SqlArg) (st : Statement) (s : State Tables)
    (result : Reply SqlValue → Int) (r : State Tables × Int) : Prop :=
  (¬ Willing sq s sql args ∧ r.2 = -1 ∧ r.1.db = s.db)
    ∨ ∃ reply, s.db.content.run values sq.fresh st (args.filterMap bindArgument) = some reply
      ∧ sq.run sql (args.filterMap bindArgument) s.db.content
        = .rows reply.rows (setTable s.db.content st.table reply.table) reply.changes
      ∧ (args.filterMap bindArgument).length = args.length
      ∧ r.2 = result reply
      ∧ r.1.db = s.db.write fun _ => setTable s.db.content st.table reply.table

/-- A call ends so if its body does. -/
theorem issue_ends (hdoc : Documented sq) (hst : readText sql = some st)
    (hlength : args.length = st.params) (hargs : args.length ≤ DbSqlite.DB_MAX_ARGS)
    (hshort : (cstr sql).length < DbSqlite.DB_MAX_SQL)
    {pre : State Tables → State Tables} (hpre : ∀ s, ∃ lastId, pre s = { s with lastId := lastId })
    {body : DbSqlite.Stmt Tables → State Tables → State Tables × Int}
    {result : Reply SqlValue → Int}
    (hfail : ∀ code stmt s', Issued sq decodes sql args s.db.content stmt (.error code) →
      (body stmt s').2 = -1 ∧ (body stmt s').1.db = s'.db)
    (hdone : ∀ reply stmt s',
      s.db.content.run values sq.fresh st (args.filterMap bindArgument) = some reply →
      Issued sq decodes sql args s.db.content stmt
        (.rows reply.rows (setTable s.db.content st.table reply.table) reply.changes) →
      (body stmt s').2 = result reply
        ∧ (body stmt s').1.db
          = s'.db.write fun _ => setTable s.db.content st.table reply.table) :
    Ends sq sql args st s result
      (DbCalls.issue (answers sq decodes sql args s.db.content) sql (query sql args) pre body s) := by
  rcases issue_cases hdoc hst hlength hargs hshort hpre body rfl with h | ⟨stmt, s', hissued, hdb, hr⟩
  · exact Or.inl h
  rw [hr]
  have hvals : (args.filterMap bindArgument).length = st.params := hissued.bound.trans hlength
  rcases hdoc.run sql st _ s.db.content hst hvals with ⟨code, hcode⟩ | ⟨reply, hreply, hrows⟩
  · rw [hcode] at hissued
    obtain ⟨hrc, hkept⟩ := hfail code stmt s' hissued
    exact Or.inl ⟨fun hwilling => hwilling.runs code hcode, hrc, hkept.trans hdb⟩
  · rw [hrows] at hissued
    obtain ⟨hrc, hwrite⟩ := hdone reply stmt s' hreply hissued
    refine Or.inr ⟨reply, hreply, hrows, hissued.bound, hrc, ?_⟩
    rw [hwrite, hdb]

/-- The first step of a statement writes all that it writes. -/
theorem stepsOf_first (rows : List Row) (tables : Tables) (changes : Nat) :
    (∃ r rest, rows = r :: rest ∧ (DbSqlite.nextStep (stepsOf decodes (.rows rows tables changes))).1
        = .row (fun _ => tables) (firstInteger r) (decodes r))
      ∨ rows = [] ∧ (DbSqlite.nextStep (stepsOf decodes (.rows rows tables changes))).1
        = .done fun _ => tables := by
  cases rows with
  | nil => exact Or.inr ⟨rfl, rfl⟩
  | cons r rest => exact Or.inl ⟨r, rest, rfl, rfl⟩

theorem execute_ends (hdoc : Documented sq) (hst : readText sql = some st)
    (hlength : args.length = st.params) (hargs : args.length ≤ DbSqlite.DB_MAX_ARGS)
    (hshort : (cstr sql).length < DbSqlite.DB_MAX_SQL) :
    Ends sq sql args st s (fun reply => reply.changes)
      (DbSqlite.dbExecute (query sql args) (answers sq decodes sql args s.db.content) s) := by
  have hexecute : DbSqlite.dbExecute (query sql args) (answers sq decodes sql args s.db.content) s
      = DbCalls.issue (answers sq decodes sql args s.db.content) sql (query sql args)
        (fun s => { s with lastId := -1 }) (DbCalls.executeBody sql) s := by
    rw [DbSqlite.dbExecute.eq_def, query_ok hargs]
    rfl
  rw [hexecute]
  refine issue_ends hdoc hst hlength hargs hshort (fun s => ⟨-1, rfl⟩) ?_ ?_
  · intro code stmt s' h
    have hstep : (DbSqlite.nextStep stmt.steps).1 = .error code id := by
      rw [h.steps]
      rfl
    rw [DbCalls.executeBody, hstep]
    dsimp only
    refine ⟨rfl, ?_⟩
    rw [DbCalls.dbUnlock_db, DbCalls.dbFailure_db, DbCalls.mark_db]
    exact DbCalls.write_id s'.db
  · intro reply stmt s' _ h
    rw [DbCalls.executeBody, h.steps]
    rcases @stepsOf_first decodes reply.rows (setTable s.db.content st.table reply.table)
        reply.changes with ⟨r, rest, -, hstep⟩ | ⟨-, hstep⟩
    all_goals
      rw [hstep]
      dsimp only
      rw [h.changes, DbCalls.dbUnlock_db]
      exact ⟨rfl, rfl⟩

/-- What `db_query_one` says of the rows. -/
def foundBy (decodes : Row → Bool) : List Row → Int
  | [] => 0
  | r :: _ => if decodes r then 1 else -1

theorem queryOne_ends (hdoc : Documented sq) (hst : readText sql = some st)
    (hlength : args.length = st.params) (hargs : args.length ≤ DbSqlite.DB_MAX_ARGS)
    (hshort : (cstr sql).length < DbSqlite.DB_MAX_SQL) :
    Ends sq sql args st s (fun reply => foundBy decodes reply.rows)
      (DbSqlite.dbQueryOne true (query sql args) (answers sq decodes sql args s.db.content) s) := by
  have hquery : DbSqlite.dbQueryOne true (query sql args)
        (answers sq decodes sql args s.db.content) s
      = DbCalls.issue (answers sq decodes sql args s.db.content) sql (query sql args)
        id DbCalls.queryOneBody s := by
    rw [DbSqlite.dbQueryOne.eq_def, query_ok hargs]
    rfl
  rw [hquery]
  refine issue_ends hdoc hst hlength hargs hshort (fun s => ⟨s.lastId, rfl⟩) ?_ ?_
  · intro code stmt s' h
    have hstep : (DbSqlite.nextStep stmt.steps).1 = .error code id := by
      rw [h.steps]
      rfl
    rw [DbCalls.queryOneBody, hstep]
    dsimp only
    refine ⟨rfl, ?_⟩
    rw [DbCalls.dbUnlock_db, DbCalls.mark_db, DbCalls.dbFailure_db]
    exact DbCalls.write_id s'.db
  · intro reply stmt s' _ h
    rw [DbCalls.queryOneBody, h.steps]
    rcases @stepsOf_first decodes reply.rows (setTable s.db.content st.table reply.table)
        reply.changes with ⟨r, rest, hrows, hstep⟩ | ⟨hrows, hstep⟩
    · rw [hstep, hrows]
      refine ⟨rfl, ?_⟩
      dsimp only
      split_ifs
      all_goals
        first
        | rw [DbCalls.mark_db, DbCalls.dbUnlock_db]
        | rw [DbCalls.dbUnlock_db]
        rfl
    · rw [hstep, hrows]
      refine ⟨rfl, ?_⟩
      dsimp only
      rw [DbCalls.dbUnlock_db]
      rfl

/-- What `db_insert_id` says of the new key. -/
def insertedId (id : Int) : Int := if 0 < id ∧ id ≤ DbSqlite.INT_MAX then id else -1

/-- The steps decide. -/
theorem insertIdBody_steps {stmt : DbSqlite.Stmt Tables} {id : Int} {code : Nat} {db : Db Tables}
    (hsteps : DbSqlite.insertSteps stmt s.db = (id, code, db)) (hfinalize : stmt.finalize = 0) :
    (DbCalls.insertIdBody stmt s).2 = id ∧ (DbCalls.insertIdBody stmt s).1.db = db := by
  rw [DbCalls.insertIdBody, hsteps, hfinalize]
  dsimp only
  rw [if_neg (not_not.mpr rfl)]
  refine ⟨rfl, ?_⟩
  rw [DbCalls.dbUnlock_db]
  dsimp only
  by_cases hneg : id < 0
  · rw [if_pos hneg, if_pos hneg, DbCalls.mark_db, DbCalls.dbFailure_db]
  · rw [if_neg hneg, if_neg hneg]

/-- The reply to an `INSERT`: the new key alone. -/
def Inserted (reply : Reply SqlValue) (id : Int) : Prop :=
  (∃ k, reply.rows = [[(k, .integer id)]]) ∧ reply.changes = 1

theorem insertId_ends (hdoc : Documented sq) {name : Bytes} {cs : List Bytes} {k : Bytes}
    (hst : readText sql = some (.insert name cs k)) (hstart : DbSqlite.startsWithInsert sql = true)
    (hlength : args.length = cs.length) (hargs : args.length ≤ DbSqlite.DB_MAX_ARGS)
    (hshort : (cstr sql).length < DbSqlite.DB_MAX_SQL) {id : Int}
    (hreply : (args.filterMap bindArgument).length = args.length → ∀ reply,
      s.db.content.run values sq.fresh (.insert name cs k) (args.filterMap bindArgument)
        = some reply → Inserted reply id) :
    Ends sq sql args (.insert name cs k) s (fun _ => insertedId id)
      (DbSqlite.dbInsertId (query sql args) (answers sq decodes sql args s.db.content) s) := by
  have hsql : (query sql args).sql = some sql := rfl
  by_cases hversion : sq.libversion < 3035000
  · refine Or.inl ⟨fun h => absurd h.version (Nat.not_le.mpr hversion), ?_⟩
    have hold : (answers sq decodes sql args s.db.content).libversion < 3035000 := hversion
    rw [DbSqlite.dbInsertId.eq_def, hsql]
    dsimp only
    rw [if_pos (Or.inr hold)]
    exact ⟨rfl, rfl⟩
  have hgood : ¬ ((!DbSqlite.argsOk (query sql args)) = true
      ∨ (answers sq decodes sql args s.db.content).libversion < 3035000) := by
    rw [query_ok hargs]
    exact fun h => h.elim (fun h => nomatch h) hversion
  have hinsert : DbSqlite.dbInsertId (query sql args)
        (answers sq decodes sql args s.db.content) s
      = DbCalls.issue (answers sq decodes sql args s.db.content) sql (query sql args)
        (fun s => { s with lastId := s.lastId }) DbCalls.insertIdBody { s with lastId := -1 } := by
    rw [DbSqlite.dbInsertId.eq_def, hsql]
    dsimp only
    rw [if_neg hgood, if_neg (Nat.not_le.mpr hshort), hstart, Bool.not_true,
      if_neg Bool.false_ne_true]
    rfl
  have hends : Ends sq sql args (.insert name cs k) { s with lastId := -1 } (fun _ => insertedId id)
      (DbCalls.issue (answers sq decodes sql args s.db.content) sql (query sql args)
        (fun s => { s with lastId := s.lastId }) DbCalls.insertIdBody { s with lastId := -1 }) := by
    refine issue_ends hdoc hst hlength hargs hshort (fun s => ⟨s.lastId, rfl⟩) ?_ ?_
    · intro code stmt s' h
      have hsteps : DbSqlite.insertSteps stmt s'.db = (-1, code, s'.db) := by
        rw [DbSqlite.insertSteps, h.readonly, h.columns, (hdoc.insert sql name cs k hst).1,
          (hdoc.insert sql name cs k hst).2, h.steps]
        exact congrArg (fun db => (-1, code, db)) (DbCalls.write_id s'.db)
      exact insertIdBody_steps hsteps h.finalize
    · intro reply stmt s' hrun h
      obtain ⟨⟨column, hrows⟩, hchanges⟩ := hreply h.bound reply hrun
      have hsteps : ∃ code, DbSqlite.insertSteps stmt s'.db
          = (insertedId id, code, s'.db.write fun _ => setTable s.db.content name reply.table) := by
        have hfirst : firstInteger [(column, SqlValue.integer id)] = some id := rfl
        rw [DbSqlite.insertSteps, h.readonly, h.columns, (hdoc.insert sql name cs k hst).1,
          (hdoc.insert sql name cs k hst).2, h.steps, hrows, h.changes, insertedId]
        simp only [stepsOf, DbSqlite.nextStep, List.map_nil, List.cons_append, List.nil_append, hfirst,
          changesOf, hchanges, DbSqlite.StepReply.apply, DbCalls.write_id]
        by_cases hid : 0 < id ∧ id ≤ DbSqlite.INT_MAX
        · rw [if_pos hid, if_pos hid]
          exact ⟨_, rfl⟩
        · rw [if_neg hid, if_neg hid]
          exact ⟨_, rfl⟩
      obtain ⟨code, hsteps⟩ := hsteps
      exact insertIdBody_steps hsteps h.finalize
  rw [hinsert]
  exact hends.imp (fun h => ⟨fun hwilling => h.1 ⟨hwilling.lock, hwilling.live, hwilling.version,
    hwilling.prepares, hwilling.binds, hwilling.runs⟩, h.2⟩) fun h => h

end Database

/-! ## The generated functions -/

/-- A struct handed over by value, and the text that its strings may point into. -/
structure Struct where
  text : Bytes
  obj : Object

/-- A table of the program: its descriptor and its key, and the platform that
    lays it out. -/
structure Crud (abi : Abi) where
  nl : NullableLayout abi
  toDouble : Int → LongDouble
  printLg : LongDouble → Bytes
  ds : Descriptors
  type : Option Nat
  info : TypeInfo
  key : FieldInfo
  found : deref ds type = some info
  table : TableType abi info
  member : key ∈ info.fields
  id : key.flags.id = true
  name : PlainName info.name
  names : ∀ f ∈ info.fields, PlainName f.name

namespace Crud

variable {abi : Abi} (c : Crud abi)

/-- The fields but the key. -/
def others : List FieldInfo := c.info.fields.filter fun f => !f.flags.id

def columns : List Bytes := c.others.map (·.name)

/-- `wrap_row.id`. -/
def rowKey (row : Struct) : Int := readInt abi row.obj c.key.offset

/-- The argument that `emit_sql_argument` has the compiler make of a field; a
    null value comes from `sql_option_int` and the like. -/
def fieldArg (row : Struct) (f : FieldInfo) : SqlArg :=
  match fieldValue c.nl f row.obj 0 with
  | some (.str p) => SQL_TEXT (some (p.text row.text))
  | some (.int n) => SQL_INT n
  | some (.long n) => SQL_LONG n
  | some (.double x) => SQL_DOUBLE x
  | some (.bool b) => SQL_BOOL b
  | none => if f.kind = .str then SQL_TEXT none else SQL_NULL

def rowArgs (row : Struct) : List SqlArg := c.others.map (c.fieldArg row)

/-- `validate_struct`, on the struct of the call; the errors it notes for the
    request are left out. -/
def refused (row : Struct) : Bool :=
  (validateStruct abi c.nl c.printLg c.ds row.text row.obj c.type {}).1

/-- The texts. -/
def insertSql : Bytes := insertText c.info.name c.columns c.key.name

def updateSql : Bytes :=
  match c.columns with
  | [] => []
  | column :: columns => updateText c.info.name column columns c.key.name

def getSql : Bytes :=
  lit "SELECT * FROM " ++ (quoted c.info.name ++ (lit " WHERE " ++ (quoted c.key.name ++ lit " = ?")))

def existsSql : Bytes :=
  lit "SELECT " ++ (quoted c.key.name ++ (lit " FROM " ++ (quoted c.info.name
    ++ (lit " WHERE " ++ (quoted c.key.name ++ lit " = ?")))))

def deleteSql : Bytes :=
  lit "DELETE FROM " ++ (quoted c.info.name ++ (lit " WHERE " ++ (quoted c.key.name ++ lit " = ?")))

section Functions

variable (sq : Sqlite)

/-- `$T_insert`. -/
def insert (row : Struct) (s : State Tables) : State Tables × Int :=
  if c.rowKey row ≠ 0 then (s, -1)
  else if c.refused row then (s, -1)
  else
    DbSqlite.dbInsertId (query c.insertSql (c.rowArgs row))
      (answers sq (fun _ => false) c.insertSql (c.rowArgs row) s.db.content) s

/-- `wrap_projection` of `$T_exists`: the key alone. -/
def projection : TypeInfo where
  name := c.info.name
  size := ushort (abi.sizeOf .int)
  fields := [{ name := c.key.name, kind := .int, offset := 0, size := ushort (abi.sizeOf .int) }]

/-- `$T_exists`. -/
def exists_ (id : Int) (s : State Tables) : State Tables × Int :=
  if id ≤ 0 then (s, -1)
  else
    DbSqlite.dbQueryOne (tableValid abi c.projection) (query c.existsSql [SQL_INT id])
      (answers sq (fun row => (rowToStruct c.nl c.toDouble sq.room c.projection row 0 zeroed).isSome)
        c.existsSql [SQL_INT id] s.db.content) s

/-- A count of changed rows, as `$T_update` and `$T_delete` return it. -/
def oneRow (rc : Int) : Int := if rc = 0 ∨ rc = 1 then rc else -1

/-- `$T_update`. -/
def update (row : Struct) (s : State Tables) : State Tables × Int :=
  if c.rowKey row ≤ 0 then (s, -1)
  else if c.info.fields.length = 1 then c.exists_ sq (c.rowKey row) s
  else if c.refused row then (s, -1)
  else
    let args := c.rowArgs row ++ [SQL_INT (c.rowKey row)]
    let r := DbSqlite.dbExecute (query c.updateSql args)
      (answers sq (fun _ => false) c.updateSql args s.db.content) s
    (r.1, oneRow r.2)

/-- `$T_save`. -/
def save (row : Struct) (s : State Tables) : State Tables × Int :=
  if c.rowKey row = 0 then c.insert sq row s
  else
    let r := c.update sq row s
    (r.1, if r.2 = 1 then c.rowKey row else r.2)

/-- `$T_delete`. -/
def delete (id : Int) (s : State Tables) : State Tables × Int :=
  if id ≤ 0 then (s, -1)
  else
    let r := DbSqlite.dbExecute (query c.deleteSql [SQL_INT id])
      (answers sq (fun _ => false) c.deleteSql [SQL_INT id] s.db.content) s
    (r.1, oneRow r.2)

/-- The struct that `db_query_one` fills from the first row. -/
def filled (id : Int) (tables : Tables) (out : Object) : Object :=
  match sq.run c.getSql [.integer id] tables with
  | .rows (row :: _) _ _ => (rowToStruct c.nl c.toDouble sq.room c.info row 0 out).getD out
  | _ => out

/-- `$T_get`, with the struct it leaves. -/
def get (id : Int) (out : Object) (s : State Tables) : State Tables × Int × Object :=
  let out := clear out 0 c.info.size
  if id ≤ 0 then (s, -1, out)
  else
    let r := DbSqlite.dbQueryOne (tableValid abi c.info) (query c.getSql [SQL_INT id])
      (answers sq (fun row => (rowToStruct c.nl c.toDouble sq.room c.info row 0 out).isSome) c.getSql
        [SQL_INT id] s.db.content) s
    (r.1, r.2, if r.2 = 1 then c.filled sq id s.db.content out else clear out 0 c.info.size)

end Functions

/-! ## The fields -/

theorem key_only {f : FieldInfo} (hf : f ∈ c.info.fields) (hid : f.flags.id = true) : f = c.key := by
  by_contra hne
  have hpair : c.info.fields.Pairwise fun f g => ¬ (f.flags.id = true ∧ g.flags.id = true) :=
    c.table.checked.oneKey.imp fun h hboth => by
      rw [h hboth.1] at hboth
      exact nomatch hboth.2
  have hsymm : Std.Symm fun f g : FieldInfo => ¬ (f.flags.id = true ∧ g.flags.id = true) :=
    ⟨fun _ _ h hboth => h hboth.symm⟩
  exact hpair.forall hf c.member hne ⟨hid, c.id⟩

theorem mem_others {f : FieldInfo} : f ∈ c.others ↔ f ∈ c.info.fields ∧ f ≠ c.key := by
  rw [others, List.mem_filter, Bool.not_eq_true']
  refine and_congr_right fun hf => ⟨fun hno heq => ?_, fun hne => ?_⟩
  · rw [heq, c.id] at hno
    cases hno
  · exact Bool.eq_false_iff.mpr fun hid => hne (c.key_only hf hid)

theorem names_nodup : (c.info.fields.map (·.name)).Nodup :=
  List.pairwise_map.mpr (c.table.checked.distinct.imp fun h => h.1)

/-- The key and the others are the fields. -/
theorem fields_perm : (c.key :: c.others).Perm c.info.fields := by
  have hnodup : c.info.fields.Nodup := c.names_nodup.of_map
  refine (List.perm_ext_iff_of_nodup (List.nodup_cons.mpr ⟨?_, hnodup.filter _⟩) hnodup).mpr fun f => ?_
  · exact fun h => (c.mem_others.mp h).2 rfl
  · have hothers : f ∈ c.others ↔ _ := c.mem_others
    rw [List.mem_cons, ← others, hothers]
    refine ⟨fun h => h.elim (fun heq => heq ▸ c.member) And.left, fun hf => ?_⟩
    by_cases heq : f = c.key
    · exact Or.inl heq
    · exact Or.inr ⟨hf, heq⟩

theorem others_length : c.others.length + 1 = c.info.fields.length := c.fields_perm.length_eq

theorem columns_length : c.columns.length = c.others.length := List.length_map _

theorem columns_few : c.columns.length ≤ 63 := by
  have hlength := c.table.length_le
  rw [← c.others_length] at hlength
  rw [c.columns_length]
  exact Nat.le_of_succ_le_succ hlength

theorem columns_plain : ∀ column ∈ c.columns, PlainName column := by
  intro column h
  obtain ⟨f, hf, rfl⟩ := List.mem_map.mp h
  exact c.names f (c.mem_others.mp hf).1

theorem key_plain : PlainName c.key.name := c.names c.key c.member

/-! ## The texts -/

theorem no_quote {name : Bytes} (h : PlainName name) : QUOTE ∉ name := h.not_mem (by decide)

theorem read_insertSql :
    readText c.insertSql = some (.insert c.info.name c.columns c.key.name) :=
  readText_insert (no_quote c.name) (no_quote c.key_plain) fun column h =>
    no_quote (c.columns_plain column h)

theorem read_updateSql (h : c.info.fields.length ≠ 1) :
    readText c.updateSql = some (.update c.info.name c.columns c.key.name) := by
  rw [updateSql]
  cases hcolumns : c.columns with
  | nil =>
      have hlength := c.columns_length
      rw [hcolumns, List.length_nil] at hlength
      exact absurd (by rw [← c.others_length, ← hlength]) h
  | cons column columns =>
      refine readText_update (no_quote c.name) (no_quote c.key_plain) fun d hd => ?_
      exact no_quote (c.columns_plain d (hcolumns ▸ hd))

/-- How the texts on one row end. -/
theorem scan_where {m : SqlWords.Mode} {ws : List Word} {name : Bytes} (hname : QUOTE ∉ name)
    (hwhere : scan m (lit " WHERE ") = (ws, .blank)) :
    scan m (lit " WHERE " ++ (quoted name ++ lit " = ?"))
      = (ws ++ ([] ++ [.name name, EQUAL, VALUE]), .blank) :=
  scan_trans hwhere (scan_trans (scan_quoted hname) rfl)

theorem read_getSql : readText c.getSql = some (.select c.info.name none c.key.name) := by
  have hhead : scan .blank (lit "SELECT * FROM ")
      = ([keyword "SELECT", STAR, keyword "FROM"], .blank) := rfl
  have hscan := scan_trans hhead (scan_trans (scan_quoted (no_quote c.name))
    (scan_where (no_quote c.key_plain) rfl))
  rw [readText, getSql, words_blank hscan]
  exact @read_words (.select c.info.name none c.key.name) trivial

theorem read_existsSql :
    readText c.existsSql = some (.select c.info.name (some c.key.name) c.key.name) := by
  have hhead : scan .blank (lit "SELECT ") = ([keyword "SELECT"], .blank) := rfl
  have hfrom : scan (.closed c.key.name) (lit " FROM ")
      = ([.name c.key.name, keyword "FROM"], .blank) := rfl
  have hscan := scan_trans hhead (scan_trans (scan_quoted (no_quote c.key_plain)) (scan_trans hfrom
    (scan_trans (scan_quoted (no_quote c.name)) (scan_where (no_quote c.key_plain) rfl))))
  rw [readText, existsSql, words_blank hscan]
  exact @read_words (.select c.info.name (some c.key.name) c.key.name) trivial

theorem read_deleteSql : readText c.deleteSql = some (.delete c.info.name c.key.name) := by
  have hhead : scan .blank (lit "DELETE FROM ") = ([keyword "DELETE", keyword "FROM"], .blank) := rfl
  have hscan := scan_trans hhead (scan_trans (scan_quoted (no_quote c.name))
    (scan_where (no_quote c.key_plain) rfl))
  rw [readText, deleteSql, words_blank hscan]
  exact @read_words (.delete c.info.name c.key.name) trivial

/-- A text that is short enough is so up to its end. -/
theorem cstr_short {sql : Bytes} (h : sql.length < DbSqlite.DB_MAX_SQL) :
    (cstr sql).length < DbSqlite.DB_MAX_SQL :=
  Nat.lt_of_le_of_lt (List.takeWhile_sublist _).length_le h

theorem insertSql_short : (cstr c.insertSql).length < DbSqlite.DB_MAX_SQL :=
  cstr_short (insert_length c.name c.key_plain c.columns_plain c.columns_few)

theorem updateSql_short : (cstr c.updateSql).length < DbSqlite.DB_MAX_SQL := by
  refine cstr_short ?_
  have hfew := c.columns_few
  have hplain := c.columns_plain
  rw [updateSql]
  cases hcolumns : c.columns with
  | nil => exact (by decide : 0 < DbSqlite.DB_MAX_SQL)
  | cons column columns =>
      rw [hcolumns] at hfew hplain
      exact update_length c.name c.key_plain hplain (Nat.le_of_succ_le_succ hfew)

theorem getSql_short : (cstr c.getSql).length < DbSqlite.DB_MAX_SQL := by
  have htable := c.name.quoted_le
  have hkey := c.key_plain.quoted_le
  have hconst : (lit "SELECT * FROM ").length = 14 ∧ (lit " WHERE ").length = 7
      ∧ (lit " = ?").length = 4 := by decide
  have hmax : DbSqlite.DB_MAX_SQL = 8192 := rfl
  refine cstr_short ?_
  simp only [getSql, List.length_append]
  omega

theorem existsSql_short : (cstr c.existsSql).length < DbSqlite.DB_MAX_SQL := by
  have htable := c.name.quoted_le
  have hkey := c.key_plain.quoted_le
  have hconst : (lit "SELECT ").length = 7 ∧ (lit " FROM ").length = 6
      ∧ (lit " WHERE ").length = 7 ∧ (lit " = ?").length = 4 := by decide
  have hmax : DbSqlite.DB_MAX_SQL = 8192 := rfl
  refine cstr_short ?_
  simp only [existsSql, List.length_append]
  omega

theorem deleteSql_short : (cstr c.deleteSql).length < DbSqlite.DB_MAX_SQL := by
  have htable := c.name.quoted_le
  have hkey := c.key_plain.quoted_le
  have hconst : (lit "DELETE FROM ").length = 12 ∧ (lit " WHERE ").length = 7
      ∧ (lit " = ?").length = 4 := by decide
  have hmax : DbSqlite.DB_MAX_SQL = 8192 := rfl
  refine cstr_short ?_
  simp only [deleteSql, List.length_append]
  omega

theorem insertSql_starts : DbSqlite.startsWithInsert c.insertSql = true := by
  have hnul : (0 : Byte) ∉ c.insertSql :=
    (quiet_insert c.name c.key_plain c.columns_plain).nul
  rw [DbSqlite.startsWithInsert, cstr_eq_self hnul]
  rfl

end Crud

/-! ## Records -/

/-- The values of the fields but the key, strings by themselves, and the records
    of a table by their keys. -/
abbrev Record : Type := List (Option Scalar)
abbrev Records : Type := List (Int × Record)

/-- The column value that stands for a value. -/
def encode (x : Option Scalar) : SqlValue := (bindValue [] x).getD .null

def encodeRecord (r : Record) : List SqlValue := r.map encode

/-- A value that a table can keep for the field. -/
structure Kept (f : FieldInfo) (x : Option Scalar) : Prop where
  kind : ∀ v, x = some v → Scalar.kind v = f.kind
  range : ∀ v, x = some v → InRange v
  own : x.map (Scalar.content []) = x
  null : x = none → f.flags.notNull = false ∧ (f.kind = .str ∨ f.flags.nullable = true)
  bound : (bindValue [] x).isSome = true

theorem content_content (json json' : Bytes) (v : Scalar) :
    Scalar.content json' (Scalar.content json v) = Scalar.content json v := by
  cases v with
  | str p => exact congrArg (fun text => Scalar.str (.elsewhere text)) (Ptr.text_elsewhere json json' p)
  | int n => rfl
  | long n => rfl
  | double x => rfl
  | bool b => rfl

theorem content_kind (json : Bytes) (v : Scalar) : Scalar.kind (Scalar.content json v) = Scalar.kind v := by
  cases v <;> rfl

theorem content_range {json : Bytes} {v : Scalar} (h : InRange v) : InRange (Scalar.content json v) := by
  cases v <;> exact h

theorem bindValue_content (json : Bytes) (x : Option Scalar) :
    bindValue [] (x.map (Scalar.content json)) = bindValue json x := by
  rcases x with _ | v
  · rfl
  cases v with
  | str p =>
      exact congrArg (fun text => some (SqlValue.text text)) (Ptr.text_elsewhere json [] p)
  | int n => rfl
  | long n => rfl
  | double x => rfl
  | bool b => rfl

/-- A field that is not null-able and no string has a value. -/
theorem fieldValue_none {abi : Abi} (nl : NullableLayout abi) {f : FieldInfo} (hf : f.kind ≠ .object)
    {obj : Object} {base : Nat} (h : fieldValue nl f obj base = none) :
    f.kind = .str ∨ f.flags.nullable = true := by
  by_contra hno
  rw [not_or, Bool.not_eq_true] at hno
  rw [fieldValue, fieldIsNull, hno.2, if_neg Bool.false_ne_true, if_neg hno.1,
    if_neg Bool.false_ne_true] at h
  dsimp only at h
  cases hk : f.kind with
  | str => exact hno.1 hk
  | object => exact hf hk
  | int => rw [hk] at h; cases h
  | long => rw [hk] at h; cases h
  | double => rw [hk] at h; cases h
  | bool => rw [hk] at h; cases h

namespace Crud

variable {abi : Abi} (c : Crud abi)

def recordOf (row : Struct) : Record :=
  c.others.map fun f => (fieldValue c.nl f row.obj 0).map (Scalar.content row.text)

/-- The struct has numbers of C in it. -/
def Typed (row : Struct) : Prop :=
  ∀ f ∈ c.others, ∀ v, fieldValue c.nl f row.obj 0 = some v → InRange v

/-- What is bound for an argument is what is bound for the value of the field. -/
theorem bind_fieldArg (row : Struct) (f : FieldInfo) :
    bindArgument (c.fieldArg row f) = bindValue row.text (fieldValue c.nl f row.obj 0) := by
  rw [fieldArg]
  cases fieldValue c.nl f row.obj 0 with
  | none =>
      dsimp only
      split_ifs <;> rfl
  | some v =>
      cases v with
      | str p =>
          exact congrArg (fun text => some (SqlValue.text text))
            (cstr_eq_self (Ptr.text_no_nul p row.text))
      | int n => rfl
      | long n => rfl
      | double x => rfl
      | bool b => rfl

/-- Where every argument is bound, the values are those of the record. -/
theorem bound_values {row : Struct}
    (h : ((c.rowArgs row).filterMap bindArgument).length = (c.rowArgs row).length) :
    (c.rowArgs row).filterMap bindArgument = encodeRecord (c.recordOf row)
      ∧ ∀ f ∈ c.others, (bindValue row.text (fieldValue c.nl f row.obj 0)).isSome = true := by
  have hall : ∀ f ∈ c.others, (bindValue row.text (fieldValue c.nl f row.obj 0)).isSome = true := by
    intro f hf
    have harg := List.filterMap_length_eq_length.mp h (c.fieldArg row f) (List.mem_map_of_mem hf)
    rwa [c.bind_fieldArg] at harg
  refine ⟨?_, hall⟩
  rw [rowArgs, List.filterMap_map, encodeRecord, recordOf, List.map_map, ← List.filterMap_eq_map]
  refine List.filterMap_congr fun f hf => ?_
  obtain ⟨v, hv⟩ := Option.isSome_iff_exists.mp (hall f hf)
  rw [Function.comp_apply, c.bind_fieldArg, Function.comp_apply, Function.comp_apply, encode,
    bindValue_content, hv]
  rfl

/-- What `validate_struct` lets through passes the rules field by field. -/
theorem validateFields_passes {json : Bytes} {obj : Object} {levels : Nat} {path : Bytes} :
    ∀ {fields : List FieldInfo} {failed : Bool} {fail : RuntimeError.Failure},
      (∀ f ∈ fields, f.kind ≠ .object) →
      (validateFields abi c.nl c.printLg json obj
        (validateNested abi c.nl c.printLg c.ds json obj levels) 0 path fields failed fail).1 = false →
      failed = false ∧ ∀ f ∈ fields,
        valueCheck c.printLg f json (fieldValue c.nl f obj 0) = none
  | [], _, _, _, h => ⟨h, fun _ hf => (List.not_mem_nil hf).elim⟩
  | f :: fields, failed, fail, hscalar, h => by
      have hf := hscalar f List.mem_cons_self
      rw [validateFields] at h
      dsimp only at h
      split_ifs at h with hlong
      rw [fieldValidate, fieldCheck_eq c.nl c.printLg json hf] at h
      obtain ⟨hfailed, hrest⟩ := validateFields_passes (fun g hg =>
        hscalar g (List.mem_cons_of_mem f hg)) h
      rw [Bool.or_eq_false_iff] at hfailed
      refine ⟨hfailed.1, List.forall_mem_cons.mpr ⟨?_, hrest⟩⟩
      cases hcheck : valueCheck c.printLg f json (fieldValue c.nl f obj 0) with
      | none => rfl
      | some e =>
          rw [hcheck] at hfailed
          cases hfailed.2

theorem passes {row : Struct} (h : c.refused row = false) : ∀ f ∈ c.info.fields,
    valueCheck c.printLg f row.text (fieldValue c.nl f row.obj 0) = none := by
  rw [refused, validateStruct] at h
  split_ifs at h
  rw [NEST_DEPTH_MAX, validateNested, c.found] at h
  exact (c.validateFields_passes (fun f hf => (c.table.checked.column f hf).scalar) h).2

/-- **A record that `validate_struct` lets through, and that is bound, can be
    kept.** -/
theorem kept_record {row : Struct} (htyped : c.Typed row) (hvalid : c.refused row = false)
    (hbound : ∀ f ∈ c.others, (bindValue row.text (fieldValue c.nl f row.obj 0)).isSome = true) :
    List.Forall₂ Kept c.others (c.recordOf row) := by
  rw [recordOf, List.forall₂_map_right_iff, List.forall₂_same]
  intro f hf
  have hmem := (c.mem_others.mp hf).1
  refine ⟨?_, ?_, ?_, ?_, ?_⟩
  · intro v hv
    obtain ⟨w, hw, rfl⟩ := Option.map_eq_some_iff.mp hv
    rw [content_kind]
    exact fieldValue_kind c.nl hw
  · intro v hv
    obtain ⟨w, hw, rfl⟩ := Option.map_eq_some_iff.mp hv
    exact content_range (htyped f hf w hw)
  · rw [Option.map_map]
    exact Option.map_congr fun v _ => content_content row.text [] v
  · intro hnone
    have hvalue := Option.map_eq_none_iff.mp hnone
    have hpasses := c.passes hvalid f hmem
    rw [hvalue, valueCheck, notNull] at hpasses
    refine ⟨Bool.eq_false_iff.mpr fun hnot => ?_,
      fieldValue_none c.nl (c.table.checked.column f hmem).scalar hvalue⟩
    rw [if_pos hnot] at hpasses
    cases hpasses
  · rw [bindValue_content]
    exact hbound f hf

/-! ## The map -/

/-- SQLite has the table as the descriptor has it. -/
structure Stored (t : Table SqlValue) : Prop where
  key : t.key = c.key.name
  fits : t.Fits c.columns

/-- Records as the functions leave them. -/
structure Proper (m : Records) : Prop where
  ascending : Ascending m
  positive : ∀ r ∈ m, 0 < r.1
  kept : ∀ r ∈ m, List.Forall₂ Kept c.others r.2

/-- The records that the table holds; no transaction is open. -/
structure Holds (t : Table SqlValue) (s : State Tables) (m : Records) : Prop where
  depth : s.depth = 0
  txn : s.db.txn = none
  content : s.db.content c.info.name = some (t.holding c.columns (mapRows encodeRecord m))
  proper : c.Proper m

/-- The other tables are what they were. -/
def OthersKept (s s' : State Tables) : Prop :=
  ∀ name, name ≠ c.info.name → s'.db.content name = s.db.content name

/-- A call fails, because something was refused, and changes nothing; or the map
    behind it is `m'` and it returns `rc`. -/
def Does (sq : Sqlite) (t : Table SqlValue) (s : State Tables) (m : Records) (sql : Bytes)
    (args : List SqlArg) (m' : Records) (rc : Int) (r : State Tables × Int) : Prop :=
  ((¬ Willing sq s sql args ∧ r.2 = -1 ∧ c.Holds t r.1 m) ∨ (r.2 = rc ∧ c.Holds t r.1 m'))
    ∧ c.OthersKept s r.1

section Steps

variable {c} {sq : Sqlite} {t : Table SqlValue} {s : State Tables} {m : Records} {sql : Bytes}
  {args : List SqlArg}

theorem Proper.insert {id : Int} {r : Record} (h : c.Proper m) (hnew : id ∉ m.map (·.1))
    (hid : 0 < id) (hr : List.Forall₂ Kept c.others r) : c.Proper (insertRow id r m) where
  ascending := insertRow_ascending h.ascending hnew
  positive x hx := by
    rcases mem_insertRow.mp hx with rfl | hx
    · exact hid
    · exact h.positive x hx
  kept x hx := by
    rcases mem_insertRow.mp hx with rfl | hx
    · exact hr
    · exact h.kept x hx

theorem Proper.set {id : Int} {r : Record} (h : c.Proper m) (hr : List.Forall₂ Kept c.others r) :
    c.Proper (setRow id r m) where
  ascending := setRow_ascending h.ascending
  positive x hx := by
    obtain ⟨y, hy, rfl⟩ := List.mem_map.mp hx
    have hpositive := h.positive y hy
    split_ifs <;> exact hpositive
  kept x hx := by
    obtain ⟨y, hy, rfl⟩ := List.mem_map.mp hx
    have hkept := h.kept y hy
    split_ifs
    · exact hr
    · exact hkept

theorem Proper.drop (h : c.Proper m) (id : Int) : c.Proper (dropRow id m) where
  ascending := dropRow_ascending h.ascending
  positive x hx := h.positive x (List.mem_of_mem_filter hx)
  kept x hx := h.kept x (List.mem_of_mem_filter hx)

/-- A call that does nothing. -/
theorem Holds.same (h : c.Holds t s m) (rc : Int) : c.Does sq t s m sql args m rc (s, rc) :=
  ⟨Or.inr ⟨rfl, h⟩, fun _ _ => rfl⟩

/-- A call that ends with a reply for the map `m'`. -/
theorem does_of_ends (h : c.Holds t s m) {st : Statement} {result : Reply SqlValue → Int}
    {r : State Tables × Int} (hends : Ends sq sql args st s result r) (hdepth : r.1.depth = s.depth)
    (htable : st.table = c.info.name) {m' : Records} {rc : Int}
    (hreply : ∀ reply, (t.holding c.columns (mapRows encodeRecord m)).run values sq.fresh st
        (args.filterMap bindArgument) = some reply →
      (args.filterMap bindArgument).length = args.length →
      reply.table = t.holding c.columns (mapRows encodeRecord m') ∧ result reply = rc
        ∧ c.Proper m') :
    c.Does sq t s m sql args m' rc r := by
  rcases hends with ⟨hno, hrc, hdb⟩ | ⟨reply, hrun, -, hbound, hrc, hdb⟩
  · refine ⟨Or.inl ⟨hno, hrc, hdepth.trans h.depth, ?_, ?_, h.proper⟩, fun _ _ => by rw [hdb]⟩
    · rw [hdb]
      exact h.txn
    · rw [hdb]
      exact h.content
  · rw [Database.run, htable, h.content, Option.bind_some] at hrun
    obtain ⟨hreplyTable, hresult, hproper⟩ := hreply reply hrun hbound
    have hcontent : r.1.db.content = setTable s.db.content c.info.name
        (t.holding c.columns (mapRows encodeRecord m')) := by
      rw [hdb, content_write, htable, hreplyTable]
    refine ⟨Or.inr ⟨hrc.trans hresult, hdepth.trans h.depth, ?_, ?_, hproper⟩, fun name hname => ?_⟩
    · rw [hdb, Db.write, h.txn]
    · rw [hcontent]
      exact if_pos rfl
    · rw [hcontent]
      exact if_neg hname

theorem call_depth (call : DbSqlite.Call Tables) (s : State Tables) :
    (call.run s).1.depth = s.depth := by
  cases DbCalls.call_spec call s with
  | refused frame => exact frame.depth
  | unprepared _ frame => exact frame.depth
  | ran _ _ frame => exact frame.depth

theorem rowArgs_length (row : Struct) : (c.rowArgs row).length = c.columns.length := by
  rw [rowArgs, List.length_map, c.columns_length]

theorem encode_length (row : Struct) : (encodeRecord (c.recordOf row)).length = c.columns.length := by
  rw [encodeRecord, List.length_map, recordOf, List.length_map, c.columns_length]

/-- What the `INSERT` replies. -/
theorem insert_reply (ht : c.Stored t) {row : Struct}
    (hbound : ((c.rowArgs row).filterMap bindArgument).length = (c.rowArgs row).length) :
    (t.holding c.columns (mapRows encodeRecord m)).run values sq.fresh
        (.insert c.info.name c.columns c.key.name) ((c.rowArgs row).filterMap bindArgument)
      = some {
          rows := [[(c.key.name, .integer (sq.fresh (m.map (·.1))))]]
          table := t.holding c.columns (mapRows encodeRecord
            (insertRow (sq.fresh (m.map (·.1))) (c.recordOf row) m))
          changes := 1 } := by
  have hrun := @insert_run SqlValue c.columns (encodeRecord (c.recordOf row)) t
    (mapRows encodeRecord m) _ values sq.fresh ht.fits (encode_length row) c.info.name
  rw [ht.key, mapRows_keys, ← mapRows_insert] at hrun
  rw [(c.bound_values hbound).1]
  exact hrun

/-- **`$T_insert` adds the record under a new key.** -/
theorem insert_does (hdoc : Documented sq) (ht : c.Stored t) (h : c.Holds t s m) {row : Struct}
    (htyped : c.Typed row) (hkey : c.rowKey row = 0) (hvalid : c.refused row = false) :
    c.Does sq t s m c.insertSql (c.rowArgs row)
      (insertRow (sq.fresh (m.map (·.1))) (c.recordOf row) m) (insertedId (sq.fresh (m.map (·.1))))
      (c.insert sq row s) := by
  have hinsert : c.insert sq row s = DbSqlite.dbInsertId (query c.insertSql (c.rowArgs row))
      (answers sq (fun _ => false) c.insertSql (c.rowArgs row) s.db.content) s := by
    rw [insert, if_neg (not_not.mpr hkey), hvalid, if_neg Bool.false_ne_true]
  have hfew : (c.rowArgs row).length ≤ 63 := by
    rw [rowArgs_length]
    exact c.columns_few
  have hends : Ends sq c.insertSql (c.rowArgs row) (.insert c.info.name c.columns c.key.name) s
      (fun _ => insertedId (sq.fresh (m.map (·.1)))) (c.insert sq row s) := by
    rw [hinsert]
    refine insertId_ends hdoc c.read_insertSql c.insertSql_starts (rowArgs_length row)
      (Nat.le_succ_of_le hfew) c.insertSql_short fun hbound reply hreply => ?_
    rw [Database.run, Statement.table, h.content, Option.bind_some,
      insert_reply ht hbound, Option.some.injEq] at hreply
    subst hreply
    exact ⟨⟨_, rfl⟩, rfl⟩
  refine does_of_ends h hends ?_ rfl fun reply hreply hbound => ?_
  · rw [hinsert]
    exact call_depth (.insertId _ _) s
  · rw [insert_reply ht hbound, Option.some.injEq] at hreply
    subst hreply
    refine ⟨rfl, rfl, h.proper.insert (hdoc.new _) (hdoc.positive _ fun k hk => ?_)
      (c.kept_record htyped hvalid (c.bound_values hbound).2)⟩
    obtain ⟨r, hr, rfl⟩ := List.mem_map.mp hk
    exact h.proper.positive r hr

/-- Whether a key is there, as `$T_update`, `$T_delete` and `$T_exists` say it. -/
def there (m : Records) (id : Int) : Int := if (findRow id m).isSome then 1 else 0

theorem oneRow_there (m : Records) (id : Int) : oneRow (there m id) = there m id := by
  rw [there]
  split_ifs <;> rfl

/-- A call whose result is cut to one row. -/
theorem Does.oneRow {m' : Records} {id : Int} {r : State Tables × Int}
    (h : c.Does sq t s m sql args m' (there m id) r) :
    c.Does sq t s m sql args m' (there m id) (r.1, Crud.oneRow r.2) := by
  obtain ⟨hdone | hdone, hothers⟩ := h
  · refine ⟨Or.inl ⟨hdone.1, ?_, hdone.2.2⟩, hothers⟩
    rw [hdone.2.1]
    rfl
  · refine ⟨Or.inr ⟨?_, hdone.2⟩, hothers⟩
    rw [hdone.1, oneRow_there]

theorem one_arg (id : Int) : [SQL_INT id].length ≤ DbSqlite.DB_MAX_ARGS :=
  Nat.le_of_ble_eq_true rfl

theorem changes_there (id : Int) :
    ((if (findRow id (mapRows encodeRecord m)).isSome then 1 else 0 : Nat) : Int) = there m id := by
  rw [mapRows_find, Option.isSome_map, there]
  split_ifs <;> rfl

/-- **`$T_delete` takes the record away.** -/
theorem delete_does (hdoc : Documented sq) (ht : c.Stored t) (h : c.Holds t s m) {id : Int}
    (hid : 0 < id) :
    c.Does sq t s m c.deleteSql [SQL_INT id] (dropRow id m) (there m id) (c.delete sq id s) := by
  rw [delete, if_neg (Int.not_le.mpr hid)]
  refine Does.oneRow (does_of_ends h (execute_ends hdoc c.read_deleteSql rfl
    (one_arg id) c.deleteSql_short) (call_depth (.execute _ _) s) rfl fun reply hreply hbound => ?_)
  have hrun := @delete_run SqlValue c.columns t (mapRows encodeRecord m) _ values sq.fresh
    (mapRows_ascending _ h.proper.ascending) c.info.name id
  rw [ht.key, ← mapRows_drop] at hrun
  have hsame := hreply.symm.trans hrun
  rw [Option.some.injEq] at hsame
  subst hsame
  exact ⟨rfl, changes_there id, h.proper.drop id⟩

/-- **`$T_update` puts the record in the place of the old one.** -/
theorem update_does (hdoc : Documented sq) (ht : c.Stored t) (h : c.Holds t s m) {row : Struct}
    (htyped : c.Typed row) (hkey : 0 < c.rowKey row) (hmany : c.info.fields.length ≠ 1)
    (hvalid : c.refused row = false) :
    c.Does sq t s m c.updateSql (c.rowArgs row ++ [SQL_INT (c.rowKey row)])
      (setRow (c.rowKey row) (c.recordOf row) m) (there m (c.rowKey row)) (c.update sq row s) := by
  have hlength : (c.rowArgs row ++ [SQL_INT (c.rowKey row)]).length = c.columns.length + 1 := by
    rw [List.length_append, rowArgs_length, List.length_singleton]
  rw [update, if_neg (Int.not_le.mpr hkey), if_neg hmany, hvalid, if_neg Bool.false_ne_true]
  refine Does.oneRow (does_of_ends h (execute_ends hdoc (c.read_updateSql hmany) hlength ?_
    c.updateSql_short) (call_depth (.execute _ _) s) rfl fun reply hreply hbound => ?_)
  · rw [hlength]
    exact Nat.succ_le_succ c.columns_few
  · have hkeyArg : [SQL_INT (c.rowKey row)].filterMap bindArgument
        = [values.int (c.rowKey row)] := rfl
    rw [List.filterMap_append, hkeyArg, List.length_append, List.length_append] at hbound
    have hvalues := c.bound_values (Nat.add_right_cancel hbound)
    rw [List.filterMap_append, hkeyArg, hvalues.1] at hreply
    have hrun := @update_run SqlValue c.columns (encodeRecord (c.recordOf row)) t
      (mapRows encodeRecord m) _ values sq.fresh ht.fits (encode_length row)
      (mapRows_ascending _ h.proper.ascending) c.info.name (c.rowKey row)
    rw [ht.key, ← mapRows_set] at hrun
    have hsame := hreply.symm.trans hrun
    rw [Option.some.injEq] at hsame
    subst hsame
    exact ⟨rfl, changes_there (c.rowKey row),
      h.proper.set (c.kept_record htyped hvalid hvalues.2)⟩

/-! ### Reading -/

theorem sizeOf_int (c : Crud abi) : abi.sizeOf .int ≤ USHRT_MAX := by
  have hcolumn := c.table.checked.column c.key c.member
  have hkey := hcolumn.key c.id
  have hsize : c.key.size = abi.sizeOf .int := by
    rw [hcolumn.size, hkey.1, hkey.2]
    rfl
  have hinside := hcolumn.inside
  have htotal := c.table.size
  omega

/-- The one field of the projection. -/
def keyField (c : Crud abi) : FieldInfo :=
  { name := c.key.name, kind := .int, offset := 0, size := ushort (abi.sizeOf .int) }

theorem projection_table : TableType abi c.projection := by
  have hint := EmittedTypes.ushort_of_le c.sizeOf_int
  have hpos := abi.sizeOf_pos .int
  have hvalid := c.table.valid
  simp only [tableValid, Bool.and_eq_true] at hvalid
  have hname : isSafeIdentifier c.key.name = true := (c.table.checked.column c.key c.member).name
  refine ⟨?_, ?_⟩
  · have hfits : columnFits c.projection c.keyField
        (fieldStorageSize abi c.keyField.kind c.keyField.flags.nullable) = true := by
      show columnFits c.projection c.keyField (abi.sizeOf .int) = true
      simp only [columnFits, projection, keyField, hint, hname, Bool.and_eq_true, bne_iff_ne,
        beq_iff_eq, decide_eq_true_eq, Option.isNone_none, and_true, Nat.zero_le, Nat.sub_zero,
        Nat.le_refl, true_and]
      omega
    have hcolumns : columnsValid abi c.projection [] 0 [c.keyField] = true := by
      rw [columnsValid, if_neg (Bool.eq_false_iff.not_left.mpr hfits)]
      rfl
    have hsize : c.projection.size ≠ 0 := by
      show ushort (abi.sizeOf .int) ≠ 0
      omega
    have hfields : c.projection.fields = [c.keyField] := rfl
    rw [tableValid, hfields, hcolumns]
    simp only [projection, hvalid.1.1.1.1, Bool.and_eq_true, bne_iff_ne, Bool.true_and, Bool.and_true,
      decide_eq_true_eq, List.length_singleton]
    exact ⟨⟨hsize, by decide⟩, by decide⟩
  · show ushort (abi.sizeOf .int) ≤ USHRT_MAX
    rw [hint]
    exact c.sizeOf_int

theorem key_cstr : cstr c.key.name = c.key.name := cstr_eq_self (c.key_plain.not_mem (by decide))

/-- A key is read as it is. -/
theorem decode_int {toDouble : Int → LongDouble} {room : Bool} {f : FieldInfo} (hkind : f.kind = .int)
    {id : Int} (hid : 0 < id) (hmax : id ≤ DbSqlite.INT_MAX) :
    decode abi toDouble room f (.integer id) = some (some (.int id)) := by
  rw [decode, if_neg (by intro h; cases h), hkind, decodeValue, if_neg]
  · rfl
  · have hmin : INT_MIN ≤ 0 := by decide
    rintro (h | h)
    · omega
    · exact absurd hmax (Int.not_le.mpr h)

/-- The key that `$T_exists` selects is read. -/
theorem projection_reads {id : Int} (hid : 0 < id) (hmax : id ≤ DbSqlite.INT_MAX) :
    (rowToStruct c.nl c.toDouble sq.room c.projection [(c.key.name, .integer id)] 0 zeroed).isSome
      = true := by
  refine (row_exact projection_table).taken.mpr fun f hf => ?_
  obtain rfl := List.mem_singleton.mp hf
  refine ⟨some (.int id), (c.key.name, .integer id), ?_, ?_⟩
  · show List.filter (fun cell => cstr cell.1 == c.key.name) [(c.key.name, SqlValue.integer id)] = _
    have hsame : (cstr c.key.name == c.key.name) = true := beq_iff_eq.mpr key_cstr
    rw [List.filter_cons, if_pos hsame]
    rfl
  · exact decode_int rfl hid hmax

/-- **`$T_exists` tells whether the key is there.** -/
theorem exists_does (hdoc : Documented sq) (ht : c.Stored t) (h : c.Holds t s m) {id : Int}
    (hid : 0 < id) (hmax : id ≤ DbSqlite.INT_MAX) :
    c.Does sq t s m c.existsSql [SQL_INT id] m (there m id) (c.exists_ sq id s) := by
  rw [exists_, if_neg (Int.not_le.mpr hid), projection_table.valid]
  refine does_of_ends h (queryOne_ends hdoc c.read_existsSql rfl (one_arg id) c.existsSql_short)
    (call_depth (.queryOne _ _ _) s) rfl fun reply hreply hbound => ?_
  have hrun := @selectKey_run SqlValue c.columns t (mapRows encodeRecord m) _ values sq.fresh ht.fits
    (mapRows_ascending _ h.proper.ascending) c.info.name id
  rw [ht.key] at hrun
  have hsame := hreply.symm.trans hrun
  rw [Option.some.injEq] at hsame
  subst hsame
  refine ⟨rfl, ?_, h.proper⟩
  rw [mapRows_find, there]
  cases findRow id m with
  | none => rfl
  | some r =>
      exact if_pos (projection_reads hid hmax)

/-! ### A record as a row -/

/-- The arena takes the string of the value. -/
def readable (room : FieldInfo → Bool) (f : FieldInfo) : Option Scalar → Bool
  | some (.str p) => decide ((p.text []).length ≤ RUNTIME_MAX_TEXT) && room f
  | _ => true

def recordReadable (c : Crud abi) (room : FieldInfo → Bool) (r : Record) : Bool :=
  (c.others.zip r).all fun p => readable room p.1 p.2

/-- **A value that can be kept is read back, if the arena takes it.** -/
theorem decode_encode {toDouble : Int → LongDouble} {room : FieldInfo → Bool} {f : FieldInfo}
    {x : Option Scalar} (h : Kept f x) :
    decode abi toDouble (room f) f (encode x) = if readable room f x then some x else none := by
  obtain ⟨v, hv⟩ := Option.isSome_iff_exists.mp h.bound
  have hencode : encode x = v := by
    rw [encode, hv]
    rfl
  by_cases hreadable : readable room f x = true
  · have hstorable : Storable room [] f x := by
      refine ⟨h.range, fun p hp => ?_, h.null⟩
      rw [hp, readable, Bool.and_eq_true, decide_eq_true_eq] at hreadable
      exact hreadable
    rw [if_pos hreadable, hencode, decode_bindValue h.kind hstorable hv, h.own]
  · rw [if_neg hreadable]
    -- only a string can be too long
    rcases x with _ | _ | _ | _ | _ | p
    all_goals try exact absurd rfl hreadable
    have hkind : f.kind = .str := (h.kind _ rfl).symm
    have htext : encode (some (.str p)) = .text (p.text []) := rfl
    rw [htext, decode, if_neg (by intro h; cases h), hkind, decodeValue,
      if_neg (Ptr.text_no_nul p []), arenaIntern, cstr_eq_self (Ptr.text_no_nul p [])]
    rw [readable, Bool.and_eq_true, decide_eq_true_eq, not_and] at hreadable
    by_cases hlong : (p.text []).length > RUNTIME_MAX_TEXT
    · rw [if_pos hlong]
      rfl
    · rw [if_neg hlong, if_neg (hreadable (Nat.not_lt.mp hlong))]
      rfl

/-- The row of a record. -/
def rowOf (c : Crud abi) (t : Table SqlValue) (id : Int) (r : Record) : Row :=
  t.cells values (id, t.assemble c.columns (encodeRecord r))

theorem rowOf_names (ht : c.Stored t) {id : Int} {r : Record} :
    (∀ cell ∈ c.rowOf t id r, cstr cell.1 = cell.1) ∧ (c.rowOf t id r).length ≤ MAX_COLUMNS := by
  have hperm := @cells_perm SqlValue t values (id, t.assemble c.columns (encodeRecord r))
  have hcolumns : ∀ name ∈ t.columns.map (·.1), name ∈ c.columns := by
    intro name hname
    obtain ⟨column, hcolumn, rfl⟩ := List.mem_map.mp hname
    exact ht.fits.covers column hcolumn
  have hnodup := List.nodup_cons.mp t.distinct
  have hfew : t.columns.length ≤ 63 := by
    have hsub := (List.subperm_of_subset hnodup.2 hcolumns).length_le
    rw [List.length_map] at hsub
    exact Nat.le_trans hsub c.columns_few
  constructor
  · intro cell hcell
    have hplain : PlainName cell.1 := by
      rcases List.mem_cons.mp (hperm.mem_iff.mp hcell) with rfl | hcell
      · rw [ht.key]
        exact c.key_plain
      · exact c.columns_plain _ (hcolumns _ (List.of_mem_zip hcell).1)
    exact cstr_eq_self (hplain.not_mem (by decide))
  · have hlength := hperm.length_eq
    have hmax : MAX_COLUMNS = 64 := rfl
    rw [rowOf, hlength, List.length_cons, List.length_zip, List.length_map]
    omega

/-- Each field has one column in the row, with its value. -/
theorem rowOf_columns (ht : c.Stored t) {id : Int} {r : Record} (f : FieldInfo) (v : SqlValue)
    (h : (f.name, v) = (c.key.name, .integer id) ∨ (f.name, v) ∈ c.columns.zip (encodeRecord r)) :
    columnsOf f ((c.rowOf t id r).take MAX_COLUMNS) = [(f.name, v)] := by
  obtain ⟨hcstr, hfew⟩ := @rowOf_names abi c t ht id r
  have hcells := cells_record values ht.fits (encodeRecord r) id (f.name, v)
    (h.imp (fun heq => by rw [ht.key]; exact heq) fun h => h)
  rw [List.take_of_length_le hfew, columnsOf, ← hcells]
  refine List.filter_congr fun cell hcell => ?_
  rw [hcstr cell hcell, beq_eq_decide]

/-! ### Getting a record -/

/-- What `$T_get` returns. -/
def gotten (c : Crud abi) (room : FieldInfo → Bool) (m : Records) (id : Int) : Int :=
  match findRow id m with
  | none => 0
  | some r => if c.recordReadable room r then 1 else -1

theorem zip_find {r : Record} (h : List.Forall₂ Kept c.others r) {f : FieldInfo} (hf : f ∈ c.others) :
    ∃ x, (f, x) ∈ c.others.zip r := by
  obtain ⟨n, hn, rfl⟩ := List.mem_iff_getElem.mp hf
  have hlength := h.length_eq
  refine ⟨r[n], ?_⟩
  rw [List.mem_iff_getElem]
  refine ⟨n, by rw [List.length_zip]; omega, ?_⟩
  rw [List.getElem_zip]

/-- The row of a record gives each field its value, if the arena takes it. -/
theorem rowOf_gives (ht : c.Stored t) {id : Int} {r : Record} (hr : List.Forall₂ Kept c.others r)
    {f : FieldInfo} {x y : Option Scalar} (h : (f, x) ∈ c.others.zip r) :
    Gives abi c.toDouble sq.room (c.rowOf t id r) f y ↔ readable sq.room f x = true ∧ y = x := by
  have hkept : Kept f x := (List.forall₂_iff_zip.mp hr).2 h
  have hcell : (f.name, encode x) ∈ c.columns.zip (encodeRecord r) := by
    rw [columns, encodeRecord, List.zip_map]
    exact List.mem_map.mpr ⟨(f, x), h, rfl⟩
  have hcolumns := @rowOf_columns abi c t ht id r f (encode x) (Or.inr hcell)
  rw [Gives, hcolumns]
  have hdecode := @decode_encode abi c.toDouble sq.room f x hkept
  constructor
  · rintro ⟨cell, hc, hy⟩
    obtain rfl := (List.cons.inj hc).1
    rw [hdecode] at hy
    split_ifs at hy with hreadable
    exact ⟨hreadable, (Option.some.inj hy).symm⟩
  · rintro ⟨hreadable, rfl⟩
    refine ⟨_, rfl, ?_⟩
    rw [hdecode, if_pos hreadable]

theorem rowOf_key (ht : c.Stored t) {id : Int} {r : Record} (hid : 0 < id)
    (hmax : id ≤ DbSqlite.INT_MAX) {y : Option Scalar} :
    Gives abi c.toDouble sq.room (c.rowOf t id r) c.key y ↔ y = some (.int id) := by
  have hcolumns := @rowOf_columns abi c t ht id r c.key (.integer id) (Or.inl rfl)
  have hkind := ((c.table.checked.column c.key c.member).key c.id).1
  have hdecode : decode abi c.toDouble (sq.room c.key) c.key (.integer id) = some (some (.int id)) :=
    decode_int hkind hid hmax
  rw [Gives, hcolumns]
  constructor
  · rintro ⟨cell, hc, hy⟩
    obtain rfl := (List.cons.inj hc).1
    rw [hdecode] at hy
    exact (Option.some.inj hy).symm
  · rintro rfl
    exact ⟨_, rfl, hdecode⟩

/-- The struct has the key and the record. -/
def Shows (c : Crud abi) (id : Int) (r : Record) (out : Object) : Prop :=
  fieldValue c.nl c.key out 0 = some (.int id)
    ∧ ∀ p ∈ c.others.zip r, fieldValue c.nl p.1 out 0 = p.2

/-- A record is read if the arena takes it, and then the struct shows it. -/
theorem record_reads (ht : c.Stored t) {id : Int} {r : Record} (hr : List.Forall₂ Kept c.others r)
    (hid : 0 < id) (hmax : id ≤ DbSqlite.INT_MAX) (out : Object) :
    (rowToStruct c.nl c.toDouble sq.room c.info (c.rowOf t id r) 0 out).isSome
        = c.recordReadable sq.room r
      ∧ ∀ obj, rowToStruct c.nl c.toDouble sq.room c.info (c.rowOf t id r) 0 out = some obj →
        c.Shows id r obj := by
  have hspec := @row_exact abi c.nl c.toDouble sq.room c.info (c.rowOf t id r) 0 out c.table
  constructor
  · rw [Bool.eq_iff_iff, hspec.taken, recordReadable, List.all_eq_true]
    constructor
    · intro hall p hp
      obtain ⟨x, hx⟩ := hall p.1 (c.mem_others.mp (List.of_mem_zip hp).1).1
      exact ((rowOf_gives ht hr hp).mp hx).1
    · intro hall f hf
      by_cases hkey : f = c.key
      · rw [hkey]
        exact ⟨_, (rowOf_key ht hid hmax).mpr rfl⟩
      · obtain ⟨x, hx⟩ := zip_find hr (c.mem_others.mpr ⟨hf, hkey⟩)
        exact ⟨x, (rowOf_gives ht hr hx).mpr ⟨hall (f, x) hx, rfl⟩⟩
  · intro obj hobj
    refine ⟨(rowOf_key ht hid hmax).mp (hspec.value obj hobj c.key c.member), fun p hp => ?_⟩
    have hmem := (c.mem_others.mp (List.of_mem_zip hp).1).1
    exact ((rowOf_gives ht hr hp).mp (hspec.value obj hobj p.1 hmem)).2

theorem find_mem {m : Records} {id : Int} {r : Record} (h : findRow id m = some r) :
    (id, r) ∈ m := by
  obtain ⟨e, he, rfl⟩ := Option.map_eq_some_iff.mp h
  have hid := List.find?_some he
  rw [decide_eq_true_eq] at hid
  rw [← hid]
  exact List.mem_of_find?_eq_some he

/-- **`$T_get` gives the record under the key.** -/
theorem get_does (hdoc : Documented sq) (ht : c.Stored t) (h : c.Holds t s m) {id : Int}
    (hid : 0 < id) (hmax : id ≤ DbSqlite.INT_MAX) (out : Object) :
    c.Does sq t s m c.getSql [SQL_INT id] m (c.gotten sq.room m id)
        ((c.get sq id out s).1, (c.get sq id out s).2.1)
      ∧ ((c.get sq id out s).2.1 = 1 →
        ∃ r, findRow id m = some r ∧ c.Shows id r (c.get sq id out s).2.2)
      ∧ ((c.get sq id out s).2.1 ≠ 1 →
        (c.get sq id out s).2.2 = clear (clear out 0 c.info.size) 0 c.info.size) := by
  rw [get, if_neg (Int.not_le.mpr hid), c.table.valid]
  dsimp only
  generalize hout : clear out 0 c.info.size = zero
  have hends := @queryOne_ends sq (fun row =>
      (rowToStruct c.nl c.toDouble sq.room c.info row 0 zero).isSome) c.getSql [SQL_INT id] _ s hdoc
    c.read_getSql rfl (one_arg id) c.getSql_short
  have hrun := @select_run SqlValue c.columns t (mapRows encodeRecord m) _ values sq.fresh
    (mapRows_ascending _ h.proper.ascending) c.info.name id
  rw [ht.key, mapRows_find] at hrun
  have hreads : ∀ r, findRow id m = some r → _ := fun r hr =>
    @record_reads abi c sq t ht id r (h.proper.kept (id, r) (find_mem hr)) hid hmax zero
  refine ⟨does_of_ends h hends (call_depth (.queryOne _ _ _) s) rfl fun reply hreply hbound => ?_,
    fun hone => ?_, fun hne => if_neg hne⟩
  · have hsame := hreply.symm.trans hrun
    rw [Option.some.injEq] at hsame
    subst hsame
    refine ⟨rfl, ?_, h.proper⟩
    rw [gotten]
    cases hfind : findRow id m with
    | none => rfl
    | some r =>
        dsimp only
        rw [← (hreads r hfind).1]
        rfl
  · rw [if_pos hone]
    rcases hends with ⟨-, hrc, -⟩ | ⟨reply, hreply, hrows, -, hrc, -⟩
    · rw [hrc] at hone
      exact absurd hone (by decide)
    · rw [Database.run, Statement.table, h.content, Option.bind_some] at hreply
      have hsame := hreply.symm.trans hrun
      rw [Option.some.injEq] at hsame
      subst hsame
      rw [hone] at hrc
      cases hfind : findRow id m with
      | none =>
          rw [hfind] at hrc
          have hzero : (1 : Int) = 0 := hrc
          exact absurd hzero (by decide)
      | some r =>
          obtain ⟨hsome, hshows⟩ := hreads r hfind
          rw [hfind] at hrc hrows
          refine ⟨r, rfl, ?_⟩
          have hread : (rowToStruct c.nl c.toDouble sq.room c.info (c.rowOf t id r) 0 zero).isSome
              = true := by
            by_contra hno
            have hminus : (1 : Int) = -1 := hrc.trans (if_neg hno)
            exact absurd hminus (by decide)
          obtain ⟨obj, hobj⟩ := Option.isSome_iff_exists.mp hread
          have hfilled : c.filled sq id s.db.content zero = obj := by
            have hrow : sq.run c.getSql [.integer id] s.db.content = .rows [c.rowOf t id r] _ _ := hrows
            rw [filled, hrow]
            dsimp only
            rw [hobj]
            rfl
          rw [hfilled]
          exact hshows obj hobj

end Steps

/-! ## Any run -/

/-- The calls of the functions; `out` is the struct that `$T_get` fills. -/
inductive Call where
  | insert (row : Struct)
  | update (row : Struct)
  | save (row : Struct)
  | delete (id : Int)
  | get (id : Int) (out : Object)
  | exists_ (id : Int)

/-- The arguments have numbers of C in them. -/
def CallTyped : Call → Prop
  | .insert row => c.Typed row
  | .update row => c.Typed row ∧ c.rowKey row ≤ DbSqlite.INT_MAX
  | .save row => c.Typed row ∧ c.rowKey row ≤ DbSqlite.INT_MAX
  | .delete _ => True
  | .get id _ => id ≤ DbSqlite.INT_MAX
  | .exists_ id => id ≤ DbSqlite.INT_MAX

def run (sq : Sqlite) (s : State Tables) : Call → State Tables × Int
  | .insert row => c.insert sq row s
  | .update row => c.update sq row s
  | .save row => c.save sq row s
  | .delete id => c.delete sq id s
  | .get id out => ((c.get sq id out s).1, (c.get sq id out s).2.1)
  | .exists_ id => c.exists_ sq id s

/-- The statement of an update. -/
def updateStatement (row : Struct) : Bytes × List SqlArg :=
  if c.info.fields.length = 1 then (c.existsSql, [SQL_INT (c.rowKey row)])
  else (c.updateSql, c.rowArgs row ++ [SQL_INT (c.rowKey row)])

/-- The statement that a call comes to. -/
def statement : Call → Bytes × List SqlArg
  | .insert row => (c.insertSql, c.rowArgs row)
  | .update row => c.updateStatement row
  | .save row => if c.rowKey row = 0 then (c.insertSql, c.rowArgs row) else c.updateStatement row
  | .delete id => (c.deleteSql, [SQL_INT id])
  | .get id _ => (c.getSql, [SQL_INT id])
  | .exists_ id => (c.existsSql, [SQL_INT id])

/-! What a call does to the map, if nothing is refused: the map behind it and the
result. -/

def mapInsert (sq : Sqlite) (m : Records) (row : Struct) : Records × Int :=
  if c.rowKey row ≠ 0 ∨ c.refused row = true then (m, -1)
  else (insertRow (sq.fresh (m.map (·.1))) (c.recordOf row) m, insertedId (sq.fresh (m.map (·.1))))

def mapUpdate (m : Records) (row : Struct) : Records × Int :=
  if c.rowKey row ≤ 0 then (m, -1)
  else if c.info.fields.length = 1 then (m, there m (c.rowKey row))
  else if c.refused row = true then (m, -1)
  else (setRow (c.rowKey row) (c.recordOf row) m, there m (c.rowKey row))

def perform (sq : Sqlite) (m : Records) : Call → Records × Int
  | .insert row => c.mapInsert sq m row
  | .update row => c.mapUpdate m row
  | .save row =>
      if c.rowKey row = 0 then c.mapInsert sq m row
      else
        let r := c.mapUpdate m row
        (r.1, if r.2 = 1 then c.rowKey row else r.2)
  | .delete id => if id ≤ 0 then (m, -1) else (dropRow id m, there m id)
  | .get id _ => if id ≤ 0 then (m, -1) else (m, c.gotten sq.room m id)
  | .exists_ id => if id ≤ 0 then (m, -1) else (m, there m id)

/-- `$T_get` shows the record when it says so. -/
def Shown (sq : Sqlite) (s : State Tables) (m : Records) : Call → Prop
  | .get id out => (c.get sq id out s).2.1 = 1 →
      ∃ r, findRow id m = some r ∧ c.Shows id r (c.get sq id out s).2.2
  | _ => True

section Runs

variable {c} {sq : Sqlite} {t : Table SqlValue} {s : State Tables} {m : Records}

theorem insert_step (hdoc : Documented sq) (ht : c.Stored t) (h : c.Holds t s m) {row : Struct}
    (htyped : c.Typed row) :
    c.Does sq t s m c.insertSql (c.rowArgs row) (c.mapInsert sq m row).1 (c.mapInsert sq m row).2
      (c.insert sq row s) := by
  rw [mapInsert]
  by_cases hkey : c.rowKey row = 0
  · cases hvalid : c.refused row with
    | true =>
        rw [if_pos (Or.inr rfl), insert, if_neg (not_not.mpr hkey), hvalid, if_pos rfl]
        exact h.same (-1)
    | false =>
        rw [if_neg (not_or.mpr ⟨not_not.mpr hkey, Bool.false_ne_true⟩)]
        exact insert_does hdoc ht h htyped hkey hvalid
  · rw [if_pos (Or.inl hkey), insert, if_pos hkey]
    exact h.same (-1)

theorem update_step (hdoc : Documented sq) (ht : c.Stored t) (h : c.Holds t s m) {row : Struct}
    (htyped : c.Typed row) (hmax : c.rowKey row ≤ DbSqlite.INT_MAX) :
    c.Does sq t s m (c.updateStatement row).1 (c.updateStatement row).2 (c.mapUpdate m row).1
      (c.mapUpdate m row).2 (c.update sq row s) := by
  rw [mapUpdate]
  by_cases hkey : c.rowKey row ≤ 0
  · rw [if_pos hkey, update, if_pos hkey]
    exact h.same (-1)
  have hpos : 0 < c.rowKey row := Int.not_le.mp hkey
  rw [if_neg hkey]
  by_cases hone : c.info.fields.length = 1
  · rw [updateStatement, if_pos hone, if_pos hone, update, if_neg hkey, if_pos hone]
    exact exists_does hdoc ht h hpos hmax
  rw [updateStatement, if_neg hone, if_neg hone]
  cases hvalid : c.refused row with
  | true =>
      rw [if_pos rfl, update, if_neg hkey, if_neg hone, hvalid, if_pos rfl]
      exact h.same (-1)
  | false =>
      rw [if_neg Bool.false_ne_true]
      exact update_does hdoc ht h htyped hpos hone hvalid

/-- **One call does to the map what its name says, or fails and does nothing.** -/
theorem step (hdoc : Documented sq) (ht : c.Stored t) (h : c.Holds t s m) {call : Call}
    (htyped : c.CallTyped call) :
    c.Does sq t s m (c.statement call).1 (c.statement call).2 (c.perform sq m call).1
        (c.perform sq m call).2 (c.run sq s call)
      ∧ c.Shown sq s m call := by
  cases call with
  | insert row => exact ⟨insert_step hdoc ht h htyped, trivial⟩
  | update row => exact ⟨update_step hdoc ht h htyped.1 htyped.2, trivial⟩
  | save row =>
      refine ⟨?_, trivial⟩
      rw [statement, perform, run, save]
      by_cases hkey : c.rowKey row = 0
      · rw [if_pos hkey, if_pos hkey, if_pos hkey]
        exact insert_step hdoc ht h htyped.1
      · rw [if_neg hkey, if_neg hkey, if_neg hkey]
        obtain ⟨hdone | hdone, hothers⟩ := update_step hdoc ht h htyped.1 htyped.2
        · refine ⟨Or.inl ⟨hdone.1, ?_, hdone.2.2⟩, hothers⟩
          dsimp only
          rw [hdone.2.1]
          rfl
        · refine ⟨Or.inr ⟨?_, hdone.2⟩, hothers⟩
          dsimp only
          rw [hdone.1]
  | delete id =>
      refine ⟨?_, trivial⟩
      rw [perform, run]
      by_cases hid : id ≤ 0
      · rw [if_pos hid, delete, if_pos hid]
        exact h.same (-1)
      · rw [if_neg hid]
        exact delete_does hdoc ht h (Int.not_le.mp hid)
  | get id out =>
      rw [perform, run, Shown]
      by_cases hid : id ≤ 0
      · rw [if_pos hid, get, if_pos hid]
        refine ⟨h.same (-1), fun hone => ?_⟩
        have hminus : (-1 : Int) = 1 := hone
        exact absurd hminus (by decide)
      · rw [if_neg hid]
        have hget := get_does hdoc ht h (Int.not_le.mp hid) htyped out
        exact ⟨hget.1, hget.2.1⟩
  | exists_ id =>
      refine ⟨?_, trivial⟩
      rw [perform, run]
      by_cases hid : id ≤ 0
      · rw [if_pos hid, exists_, if_pos hid]
        exact h.same (-1)
      · rw [if_neg hid]
        exact exists_does hdoc ht h (Int.not_le.mp hid) htyped

end Runs

/-- A run beside the map: each call is refused, returns `-1` and leaves the map,
    or returns what the map says and leaves the map behind it; the other tables
    are never touched. -/
inductive Follows (t : Table SqlValue) : State Tables → Records → List (Sqlite × Call) → Prop
  | done {s m} (holds : c.Holds t s m) : Follows t s m []
  | refused {s m sq call calls} (holds : c.Holds t s m)
      (refuses : ¬ Willing sq s (c.statement call).1 (c.statement call).2)
      (result : (c.run sq s call).2 = -1) (others : c.OthersKept s (c.run sq s call).1)
      (rest : Follows t (c.run sq s call).1 m calls) : Follows t s m ((sq, call) :: calls)
  | performed {s m sq call calls} (holds : c.Holds t s m)
      (result : (c.run sq s call).2 = (c.perform sq m call).2) (shown : c.Shown sq s m call)
      (others : c.OthersKept s (c.run sq s call).1)
      (rest : Follows t (c.run sq s call).1 (c.perform sq m call).1 calls) :
      Follows t s m ((sq, call) :: calls)

/-! ## What the generator emits

The texts and the arguments above are those of the emitted functions. -/

/-- What a macro of `query.h` makes of a member, by the value of the member. -/
def macroArg (text call : Bytes) : Option Scalar → Option SqlArg
  | some (.str p) => if call = lit "SQL_TEXT" then some (SQL_TEXT (some (p.text text))) else none
  | some (.int n) =>
      if call = lit "SQL_INT" ∨ call = lit "SQL_OPTION_int" then some (SQL_INT n) else none
  | some (.long n) =>
      if call = lit "SQL_LONG" ∨ call = lit "SQL_OPTION_long" then some (SQL_LONG n) else none
  | some (.double x) =>
      if call = lit "SQL_DOUBLE" ∨ call = lit "SQL_OPTION_double" then some (SQL_DOUBLE x) else none
  | some (.bool b) =>
      if call = lit "SQL_BOOL" ∨ call = lit "SQL_OPTION_bool" then some (SQL_BOOL b) else none
  | none =>
      if call = lit "SQL_TEXT" then some (SQL_TEXT none)
      else if call = lit "SQL_OPTION_int" ∨ call = lit "SQL_OPTION_long"
          ∨ call = lit "SQL_OPTION_double" ∨ call = lit "SQL_OPTION_bool" then some SQL_NULL
      else none

/-- The descriptor of a field of the model. -/
structure Describes (pf : ParsedField) (f : FieldInfo) : Prop where
  name : f.name = pf.name
  kind : pf.kind = some f.kind
  flags : f.flags = pf.flags

/-- **The macro of a field makes its argument.** -/
theorem macroArg_field {pf : ParsedField} {f : FieldInfo} (hshape : GeneratorTypes.FieldShape pf)
    (hf : Describes pf f) (hscalar : f.kind ≠ .object) (row : Struct) :
    macroArg row.text (argumentMacro pf) (fieldValue c.nl f row.obj 0) = some (c.fieldArg row f) := by
  have hkind : f.kind = (fieldKindFromCType pf.cType).getD .object :=
    Option.some.inj (hf.kind.symm.trans hshape.kind)
  have hnone := @fieldValue_none abi c.nl f hscalar row.obj 0
  have hvalue := @fieldValue_kind abi c.nl f row.obj 0
  rw [argumentMacro, fieldArg, hf.kind, ← hf.flags]
  cases hnull : f.flags.nullable with
  | true =>
      rw [hf.flags] at hnull
      rw [if_pos rfl]
      rcases hshape.nullable hnull with htype | htype | htype | htype
      all_goals
        rw [htype] at hkind ⊢
        have hk : f.kind = _ := hkind
        cases hx : fieldValue c.nl f row.obj 0 with
        | none =>
            dsimp only
            rw [if_neg (by rw [hk]; decide)]
            rfl
        | some v =>
            have hv := (hvalue hx).trans hk
            cases v with
            | int n => first | rfl | cases hv
            | long n => first | rfl | cases hv
            | double x => first | rfl | cases hv
            | bool b => first | rfl | cases hv
            | str p => cases hv
  | false =>
      rw [if_neg Bool.false_ne_true]
      cases hx : fieldValue c.nl f row.obj 0 with
      | none =>
          have hstr : f.kind = .str := (hnone hx).resolve_right (by rw [hnull]; decide)
          rw [hstr]
          rfl
      | some v =>
          rw [← hvalue hx]
          cases v <;> rfl

/-- The fields of an emitted descriptor. -/
theorem emitFields_describes {types : List ParsedType} {layout : Layout abi types} {i : Nat} :
    ∀ {fields : List ParsedField} {j : Nat} {infos : List FieldInfo},
      emitFields layout i j fields = some infos → List.Forall₂ Describes fields infos
  | [], _, _, h => by
      obtain rfl := Option.some.inj h
      exact .nil
  | f :: fields, j, infos, h => by
      rw [emitFields] at h
      split at h
      case h_2 => cases h
      case h_1 info rest hinfo hrest =>
        obtain rfl := Option.some.inj h
        obtain ⟨kind, hkind, rfl⟩ := Option.map_eq_some_iff.mp hinfo
        exact .cons ⟨rfl, hkind, rfl⟩ (emitFields_describes hrest)

theorem describes_names {fields : List ParsedField} {infos : List FieldInfo}
    (hall : List.Forall₂ Describes fields infos) : infos.map (·.name) = fields.map (·.name) := by
  induction hall with
  | nil => rfl
  | cons hf _ ih => rw [List.map_cons, List.map_cons, ih, hf.name]

/-- Leaving out the first key leaves out every key, as there is one. -/
theorem describes_others {fields : List ParsedField} {infos : List FieldInfo}
    (hall : List.Forall₂ Describes fields infos)
    (hone : infos.Pairwise fun f g => f.flags.id = true → g.flags.id = false) :
    List.Forall₂ Describes (fields.eraseP (·.flags.id)) (infos.filter fun f => !f.flags.id) := by
  induction hall with
  | nil => exact .nil
  | @cons pf f fields infos hf hrest ih =>
      obtain ⟨hfirst, hpair⟩ := List.pairwise_cons.mp hone
      cases hid : f.flags.id with
      | true =>
          have hpf : pf.flags.id = true := by rw [← hf.flags]; exact hid
          have hkeep : infos.filter (fun f => !f.flags.id) = infos :=
            List.filter_eq_self.mpr fun g hg => by rw [hfirst g hg hid]; rfl
          rw [@List.eraseP_cons_of_pos _ _ _ (fun f : ParsedField => f.flags.id) hpf, List.filter_cons_of_neg (by rw [hid]; decide), hkeep]
          exact hrest
      | false =>
          have hpf : ¬ pf.flags.id = true := by rw [← hf.flags, hid]; decide
          rw [@List.eraseP_cons_of_neg _ _ _ (fun f : ParsedField => f.flags.id) hpf, List.filter_cons_of_pos (by rw [hid]; decide)]
          exact .cons hf (ih hpair)

/-- **The texts and the arguments of the functions are those that the generator
    emits for the type of the descriptor.** -/
theorem emitted {types : List ParsedType} {layout : Layout abi types} {i : Nat} {t : ParsedType}
    {pk : ParsedField} (hshape : ∀ f ∈ t.fields, GeneratorTypes.FieldShape f)
    (hlength : t.fields.length ≤ GENERATOR_MAX_FIELDS) (hpk : findPrimaryKey t = some pk)
    (hemit : emitType layout i t = some c.info) (hkey : c.key.name = pk.name) :
    (insertFragments t pk).flatten = c.insertSql
      ∧ (c.info.fields.length ≠ 1 → (updateFragments t pk).flatten = c.updateSql)
      ∧ ∀ row, List.Forall₂ (fun pf arg => ∃ f ∈ c.others, f.name = pf.name
          ∧ macroArg row.text (argumentMacro pf) (fieldValue c.nl f row.obj 0) = some arg)
        (otherFields t) (c.rowArgs row) := by
  obtain ⟨infos, hinfos, hinfo⟩ := Option.map_eq_some_iff.mp hemit
  have hname : c.info.name = t.name := by rw [← hinfo]
  have hfields : c.info.fields = infos := by rw [← hinfo]
  have hothers : List.Forall₂ Describes (otherFields t) c.others := by
    rw [otherFields, others, hfields]
    exact describes_others (emitFields_describes hinfos) (hfields ▸ c.table.checked.oneKey)
  have hcolumns : c.columns = (otherFields t).map (·.name) := by
    rw [columns, describes_names hothers]
  refine ⟨?_, fun hmany => ?_, fun row => ?_⟩
  · rw [insert_flatten hlength hpk, insertSql, hname, hcolumns, hkey]
  · have hlen := c.columns_length
    have htotal := c.others_length
    rw [hcolumns, List.length_map] at hlen
    obtain ⟨f, fields, hsplit⟩ := List.exists_cons_of_ne_nil fun hnil : otherFields t = [] =>
      hmany (by rw [← htotal, ← hlen, hnil]; rfl)
    rw [update_flatten hsplit, updateSql, hcolumns, hsplit, hname, hkey]
    rfl
  · rw [rowArgs, List.forall₂_map_right_iff]
    have hmem : ∀ pf ∈ otherFields t, pf ∈ t.fields := fun pf h =>
      List.mem_of_mem_take (List.eraseP_subset h)
    refine List.forall₂_iff_zip.mpr ⟨hothers.length_eq, fun {pf f} hzip => ?_⟩
    have hf : Describes pf f := (List.forall₂_iff_zip.mp hothers).2 hzip
    obtain ⟨hpf, hmemf⟩ := List.of_mem_zip hzip
    have hscalar := (c.table.checked.column f (c.mem_others.mp hmemf).1).scalar
    exact ⟨f, hmemf, hf.name, c.macroArg_field (hshape pf (hmem pf hpf)) hf hscalar row⟩

end Crud

/-- A SQLite that runs every statement that can be read, and counts keys up. -/
def plainSqlite : Sqlite where
  lock := .acquired
  room := fun _ => true
  fresh := fun keys => keys.foldr max 0 + 1
  libversion := 3046000
  prepare sql _ :=
    match readText sql with
    | some st => .ok st.params
    | none => .error DbSqlite.SQLITE_ERROR
  readonly sql :=
    match readText sql with
    | some (.select _ _ _) => true
    | some (.list _ _) => true
    | _ => false
  columns sql :=
    match readText sql with
    | some (.insert _ _ _) => 1
    | _ => 0
  run sql vals tables :=
    match (readText sql).bind fun st =>
        (tables.run values (fun keys => keys.foldr max 0 + 1) st vals).map fun reply => (st, reply) with
    | some (st, reply) => .rows reply.rows (setTable tables st.table reply.table) reply.changes
    | none => .error DbSqlite.SQLITE_ERROR
  rowid := 0

theorem foldr_max (keys : List Int) :
    0 ≤ keys.foldr max 0 ∧ ∀ k ∈ keys, k ≤ keys.foldr max 0 := by
  induction keys with
  | nil => exact ⟨Int.le_refl 0, fun _ h => nomatch h⟩
  | cons a keys ih =>
      rw [List.foldr_cons]
      exact ⟨le_max_of_le_right ih.1, List.forall_mem_cons.mpr
        ⟨le_max_left _ _, fun k hk => le_max_of_le_right (ih.2 k hk)⟩⟩

theorem plainSqlite_documented : Documented plainSqlite where
  new keys h := by
    have hle : keys.foldr max 0 + 1 ≤ keys.foldr max 0 := (foldr_max keys).2 _ h
    omega
  positive keys _ := Int.lt_add_one_of_le (foldr_max keys).1
  params sql st tables n hst hn := by
    simp only [plainSqlite, hst] at hn
    exact (Except.ok.inj hn).symm
  insert sql name cs k hst := by
    simp only [plainSqlite, hst]
    exact ⟨trivial, trivial⟩
  run sql st vals tables hst _ := by
    simp only [plainSqlite, hst, Option.bind_some]
    cases hrun : tables.run values (fun keys => keys.foldr max 0 + 1) st vals with
    | none => exact Or.inl ⟨DbSqlite.SQLITE_ERROR, rfl⟩
    | some reply => exact Or.inr ⟨reply, rfl, rfl⟩

/-- The functions of a note. -/
def noteCrud : Crud EmittedTypes.lp64 where
  nl := PatchKey.lp64Nullable
  toDouble n := .finite n
  printLg _ := []
  ds := PatchKey.noteTypes
  type := some 0
  info := PatchKey.note
  key := { name := lit "id", kind := .int, offset := 0, size := 4, flags := { id := true } }
  found := rfl
  table := PatchKey.note_table
  member := List.mem_cons_self
  id := rfl
  name := plainName (by decide)
  names f hf := by
    rcases List.mem_cons.mp hf with rfl | hf
    · exact plainName (by decide)
    · obtain rfl := List.mem_singleton.mp hf
      exact plainName (by decide)

/-- The table of notes, and a connection to it alone. -/
def noteTable : Table SqlValue where
  key := lit "id"
  columns := [(lit "stars", .null)]
  keyAt := 0
  distinct := by decide
  rows := []

def noteState : State Tables where
  db := ⟨fun name => if name = lit "Note" then some noteTable else none, none⟩
  isOpen := true
  depth := 0
  failedLevel := 0
  lastId := -1
  lock := .free
  active := false
  fail := none

theorem note_stored : noteCrud.Stored noteTable := ⟨rfl, ⟨by decide, by decide⟩⟩

theorem note_empty : noteCrud.Holds noteTable noteState [] where
  depth := rfl
  txn := rfl
  content := by
    show (if lit "Note" = lit "Note" then some noteTable else none) = _
    rw [if_pos rfl]
    rfl
  proper := ⟨List.Pairwise.nil, (fun _ h => nomatch h), (fun _ h => nomatch h)⟩

/-- A note with five stars, not stored yet. -/
def noteDraft : Struct where
  text := []
  obj := store (store zeroed 0 4 (.int 0)) 4 4 (.int 5)

theorem noteDraft_typed : noteCrud.Typed noteDraft := by
  intro f hf v hv
  obtain rfl := List.mem_singleton.mp hf
  have hfive : fieldValue noteCrud.nl { name := lit "stars", kind := .int, offset := 4, size := 4 }
      noteDraft.obj 0 = some (.int 5) := by decide
  rw [hfive] at hv
  rw [← Option.some.inj hv]
  exact ⟨by decide, by decide⟩

end CrudRun

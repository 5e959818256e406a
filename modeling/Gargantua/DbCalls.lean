import Gargantua.DbSqlite

/-! # What a data call can do

    The four data calls check their arguments, take the lock, prepare a
    statement and step it, each with its own ways to fail.  `CallSpec` says once
    what that amounts to for the transaction: the call is refused before any
    statement is issued, or it fails and the failure is marked at the open
    level, or it succeeds; its writes go to the database the connection sees,
    unless SQLite rolled the transaction back.  Every invariant of the
    transaction calls is derived from it. -/

namespace DbCalls

open CString Savepoint DbSqlite

variable {D : Type}

/-! ## The helpers, field by field -/

@[simp] theorem mark_db (s : State D) : (mark s).db = s.db := by
  rw [mark]; split <;> rfl

@[simp] theorem mark_isOpen (s : State D) : (mark s).isOpen = s.isOpen := by
  rw [mark]; split <;> rfl

@[simp] theorem mark_depth (s : State D) : (mark s).depth = s.depth := by
  rw [mark]; split <;> rfl

@[simp] theorem mark_lock (s : State D) : (mark s).lock = s.lock := by
  rw [mark]; split <;> rfl

@[simp] theorem mark_active (s : State D) : (mark s).active = s.active := by
  rw [mark]; split <;> rfl

@[simp] theorem mark_fail (s : State D) : (mark s).fail = s.fail := by
  rw [mark]; split <;> rfl

/-- The level that a failure leaves in `t_failed_level`. -/
theorem mark_failedLevel (s : State D) :
    (mark s).failedLevel
      = if s.depth ≠ 0 ∧ s.failedLevel = 0 then s.depth else s.failedLevel := by
  rw [mark]; split <;> rfl

/-- `request_fail_code` touches the failure only. -/
theorem requestFailCode_eq (status : Nat) (code message : Bytes) (s : State D) :
    requestFailCode status code message s
      = { s with fail := (requestFailCode status code message s).fail } := by
  rw [requestFailCode]; split <;> rfl

/-- `db_failure` touches the failure only. -/
theorem dbFailure_eq (code : Nat) (s : State D) :
    dbFailure code s = { s with fail := (dbFailure code s).fail } := by
  rw [dbFailure]
  repeat' split
  · rfl
  · exact requestFailCode_eq _ _ _ s
  · exact requestFailCode_eq _ _ _ s
  · exact requestFailCode_eq _ _ _ s
  · exact requestFailCode_eq _ _ _ s
  · exact requestFailCode_eq _ _ _ s

@[simp] theorem dbFailure_db (code : Nat) (s : State D) : (dbFailure code s).db = s.db := by
  rw [dbFailure_eq]

@[simp] theorem dbFailure_isOpen (code : Nat) (s : State D) :
    (dbFailure code s).isOpen = s.isOpen := by
  rw [dbFailure_eq]

@[simp] theorem dbFailure_depth (code : Nat) (s : State D) :
    (dbFailure code s).depth = s.depth := by
  rw [dbFailure_eq]

@[simp] theorem dbFailure_failedLevel (code : Nat) (s : State D) :
    (dbFailure code s).failedLevel = s.failedLevel := by
  rw [dbFailure_eq]

@[simp] theorem dbFailure_lock (code : Nat) (s : State D) :
    (dbFailure code s).lock = s.lock := by
  rw [dbFailure_eq]

@[simp] theorem dbFailure_active (code : Nat) (s : State D) :
    (dbFailure code s).active = s.active := by
  rw [dbFailure_eq]

@[simp] theorem dbUnlock_db (s : State D) : (dbUnlock s).db = s.db := by
  rw [dbUnlock]; split <;> rfl

@[simp] theorem dbUnlock_isOpen (s : State D) : (dbUnlock s).isOpen = s.isOpen := by
  rw [dbUnlock]; split <;> rfl

@[simp] theorem dbUnlock_depth (s : State D) : (dbUnlock s).depth = s.depth := by
  rw [dbUnlock]; split <;> rfl

@[simp] theorem dbUnlock_failedLevel (s : State D) :
    (dbUnlock s).failedLevel = s.failedLevel := by
  rw [dbUnlock]; split <;> rfl

@[simp] theorem dbUnlock_active (s : State D) : (dbUnlock s).active = s.active := by
  rw [dbUnlock]; split <;> rfl

@[simp] theorem dbUnlock_fail (s : State D) : (dbUnlock s).fail = s.fail := by
  rw [dbUnlock]; split <;> rfl

theorem dbUnlock_lock (s : State D) :
    (dbUnlock s).lock = if s.depth = 0 then s.lock.release else s.lock := by
  rw [dbUnlock]; split <;> rfl

/-! ## The request failure is sticky -/

theorem requestFailCode_fail (status : Nat) (code message : Bytes) (s : State D) :
    (requestFailCode status code message s).fail ≠ none := by
  rw [requestFailCode]
  split
  · rename_i f hf
    rw [hf]
    exact fun h => nomatch h
  · exact fun h => nomatch h

theorem requestFailCode_keeps {s : State D} (h : s.fail ≠ none) (status : Nat)
    (code message : Bytes) : (requestFailCode status code message s).fail = s.fail := by
  rw [requestFailCode]
  split
  · rfl
  · rename_i hf
    exact absurd hf h

/-- Inside a request a database failure is recorded. -/
theorem dbFailure_fail {s : State D} (h : s.active = true) (code : Nat) :
    (dbFailure code s).fail ≠ none := by
  rw [dbFailure, h]
  repeat' split
  · rename_i hc
    exact nomatch hc
  · exact requestFailCode_fail _ _ _ s
  · exact requestFailCode_fail _ _ _ s
  · exact requestFailCode_fail _ _ _ s
  · exact requestFailCode_fail _ _ _ s
  · exact requestFailCode_fail _ _ _ s

/-- A recorded failure stays. -/
theorem dbFailure_keeps {s : State D} (h : s.fail ≠ none) (code : Nat) :
    (dbFailure code s).fail = s.fail := by
  rw [dbFailure]
  repeat' split
  · rfl
  · exact requestFailCode_keeps h _ _ _
  · exact requestFailCode_keeps h _ _ _
  · exact requestFailCode_keeps h _ _ _
  · exact requestFailCode_keeps h _ _ _
  · exact requestFailCode_keeps h _ _ _

/-! ## What a statement does to the database -/

/-- The database after writes of the connection. -/
def Wrote (db db' : Db D) : Prop := ∃ f, db' = db.write f

/-- The database after writes and a rollback of the whole transaction. -/
def Lost (db db' : Db D) : Prop := ∃ f, db' = (db.write f).drop

theorem write_id (db : Db D) : db.write id = db := by
  obtain ⟨disk, txn⟩ := db
  cases txn <;> rfl

theorem write_write (db : Db D) (f g : D → D) :
    (db.write f).write g = db.write (g ∘ f) := by
  obtain ⟨disk, txn⟩ := db
  cases txn <;> rfl

theorem Wrote.refl (db : Db D) : Wrote db db := ⟨id, (write_id db).symm⟩

theorem Wrote.trans {a b c : Db D} (h : Wrote a b) (h' : Wrote b c) : Wrote a c := by
  obtain ⟨f, rfl⟩ := h
  obtain ⟨g, rfl⟩ := h'
  exact ⟨g ∘ f, write_write a f g⟩

theorem Wrote.lost {a b c : Db D} (h : Wrote a b) (h' : Lost b c) : Lost a c := by
  obtain ⟨f, rfl⟩ := h
  obtain ⟨g, rfl⟩ := h'
  exact ⟨g ∘ f, by rw [write_write]⟩

/-- A step that is not an automatic rollback. -/
def StepReply.keeps : StepReply D → Bool
  | .rolledBack _ => false
  | _ => true

/-- A step writes, or it rolls back. -/
theorem apply_cases (r : StepReply D) (db : Db D) :
    Wrote db (r.apply db) ∨ (StepReply.keeps r = false ∧ Lost db (r.apply db)) := by
  cases r with
  | row effect column decodes => exact Or.inl ⟨effect, rfl⟩
  | done effect => exact Or.inl ⟨effect, rfl⟩
  | error code effect => exact Or.inl ⟨effect, rfl⟩
  | rolledBack code => exact Or.inr ⟨rfl, id, by rw [write_id]; rfl⟩

/-- No reply of the statement is an automatic rollback. -/
def Stmt.keeps (st : Stmt D) : Prop := ∀ r ∈ st.steps, StepReply.keeps r = true

/-- The first reply of a statement, and those that follow, come from its list;
    past the list there is only the misuse error. -/
theorem nextStep_keeps (steps : List (StepReply D))
    (h : ∀ r ∈ steps, StepReply.keeps r = true) :
    StepReply.keeps (nextStep steps).1 = true
      ∧ ∀ r ∈ (nextStep steps).2, StepReply.keeps r = true := by
  cases steps with
  | nil => exact ⟨rfl, fun r hr => (nomatch hr)⟩
  | cons r rest => exact List.forall_mem_cons.mp h

/-! ## One call -/

/-- SQLite lets the call's statement run: the connection is open, and no level is
    open whose transaction is gone. -/
def Live (s : State D) : Prop :=
  s.isOpen = true ∧ ¬ (s.depth > 0 ∧ s.db.autocommit = true)

/-- The fields no data call changes, and the failure, which is sticky. -/
structure Frame (s s' : State D) : Prop where
  isOpen : s'.isOpen = s.isOpen
  depth : s'.depth = s.depth
  active : s'.active = s.active
  fail : s.fail ≠ none → s'.fail = s.fail

theorem Frame.refl (s : State D) : Frame s s := ⟨rfl, rfl, rfl, fun _ => rfl⟩

theorem Frame.trans {a b c : State D} (h : Frame a b) (h' : Frame b c) : Frame a c where
  isOpen := h'.isOpen.trans h.isOpen
  depth := h'.depth.trans h.depth
  active := h'.active.trans h.active
  fail hf := by
    have hb := h.fail hf
    rw [h'.fail (by rw [hb]; exact hf), hb]

theorem frame_mark (s : State D) : Frame s (mark s) :=
  ⟨mark_isOpen s, mark_depth s, mark_active s, fun _ => mark_fail s⟩

theorem frame_unlock (s : State D) : Frame s (dbUnlock s) :=
  ⟨dbUnlock_isOpen s, dbUnlock_depth s, dbUnlock_active s, fun _ => dbUnlock_fail s⟩

theorem frame_failure (code : Nat) (s : State D) : Frame s (dbFailure code s) :=
  ⟨dbFailure_isOpen code s, dbFailure_depth code s, dbFailure_active code s,
    fun h => dbFailure_keeps h code⟩

/-- A statement that was issued: it succeeds, or it fails, is marked at the open
    level and, if SQLite rolled the transaction back, recorded as a failure of
    the request. -/
structure Ran (keeps : Prop) (s : State D) (r : State D × Int) : Prop where
  frame : Frame s r.1
  lock : r.1.lock = (dbUnlock s).lock
  result : (0 ≤ r.2 ∧ r.1.failedLevel = s.failedLevel ∧ Wrote s.db r.1.db)
    ∨ (r.2 = -1 ∧ r.1.failedLevel = (mark s).failedLevel
        ∧ (Wrote s.db r.1.db
          ∨ (¬ keeps ∧ Lost s.db r.1.db ∧ (s.active = true → r.1.fail ≠ none))))

/-- What a data call can do.  `ready` says that it got past its own argument
    checks. -/
inductive CallSpec (ready keeps : Prop) (s : State D) (r : State D × Int) : Prop where
  /-- refused on its arguments, or without the lock -/
  | refused (frame : Frame s r.1) (cause : ready → s.depth = 0)
      (lock : r.1.lock = s.lock) (db : r.1.db = s.db)
      (failedLevel : r.1.failedLevel = s.failedLevel) (rc : r.2 = -1)
  /-- the statement was refused before SQLite ran it -/
  | unprepared (ready : ready) (frame : Frame s r.1)
      (lock : r.1.lock = if s.depth = 0 then s.lock.acquire.release else s.lock)
      (db : r.1.db = s.db) (failedLevel : r.1.failedLevel = (mark s).failedLevel)
      (rc : r.2 = -1)
  /-- the statement was run -/
  | ran (ready : ready) (live : Live s) (frame : Frame s r.1)
      (lock : r.1.lock = if s.depth = 0 then s.lock.acquire.release else s.lock)
      (result : (0 ≤ r.2 ∧ r.1.failedLevel = s.failedLevel ∧ Wrote s.db r.1.db)
        ∨ (r.2 = -1 ∧ r.1.failedLevel = (mark s).failedLevel
            ∧ (Wrote s.db r.1.db
              ∨ (¬ keeps ∧ Lost s.db r.1.db ∧ (s.active = true → r.1.fail ≠ none)))))

/-- `prepare_statement` marks what it refuses and otherwise changes nothing. -/
theorem prepareStatement_spec (sql : Bytes) (args : List SqlArg) (nargs : Int)
    (p : Prepare D) (s : State D) :
    (∃ s', prepareStatement sql args nargs p s = (s', none) ∧ Frame s s'
        ∧ s'.db = s.db ∧ s'.lock = s.lock ∧ s'.failedLevel = (mark s).failedLevel)
      ∨ (∃ st tail, prepareStatement sql args nargs p s = (s, some st) ∧ Live s
          ∧ p = .ok (some st) tail) := by
  have hmark : Frame s (mark s) ∧ (mark s).db = s.db ∧ (mark s).lock = s.lock
      ∧ (mark s).failedLevel = (mark s).failedLevel :=
    ⟨frame_mark s, mark_db s, mark_lock s, rfl⟩
  unfold prepareStatement
  by_cases h1 : (!s.isOpen) = true
  · rw [if_pos h1]
    exact Or.inl ⟨_, rfl, hmark⟩
  rw [if_neg h1]
  by_cases h2 : (cstr sql).length ≥ DB_MAX_SQL
  · rw [if_pos h2]
    exact Or.inl ⟨_, rfl, hmark⟩
  rw [if_neg h2]
  by_cases h3 : s.depth > 0 ∧ s.db.autocommit = true
  · rw [if_pos h3]
    exact Or.inl ⟨_, rfl, hmark⟩
  rw [if_neg h3]
  have hlive : Live s := ⟨by simpa using h1, h3⟩
  cases p with
  | error code =>
      refine Or.inl ⟨_, rfl, (frame_failure code s).trans (frame_mark _), ?_, ?_, ?_⟩
      · rw [mark_db, dbFailure_db]
      · rw [mark_lock, dbFailure_lock]
      · rw [mark_failedLevel, mark_failedLevel, dbFailure_depth, dbFailure_failedLevel]
  | ok stmt tail =>
      cases stmt with
      | none => exact Or.inl ⟨_, rfl, hmark⟩
      | some st =>
          dsimp only
          by_cases h4 : (cstr tail).dropWhile isBlank ≠ []
          · rw [if_pos h4]
            exact Or.inl ⟨_, rfl, hmark⟩
          · rw [if_neg h4]
            by_cases h5 : (st.params : Int) ≠ nargs
            · rw [if_pos h5]
              exact Or.inl ⟨_, rfl, hmark⟩
            · rw [if_neg h5]
              split
              · exact Or.inl ⟨_, rfl, hmark⟩
              · exact Or.inr ⟨st, tail, rfl, hlive, rfl⟩

/-! ## The bodies of the four calls -/

/-- The state while a statement runs: only the database has moved. -/
def moved (s : State D) (db : Db D) : State D := { s with db := db }

theorem frame_moved (s : State D) (db : Db D) : Frame s (moved s db) :=
  ⟨rfl, rfl, rfl, fun _ => rfl⟩

theorem frame_lastId (s : State D) (lastId : Int) : Frame s { s with lastId := lastId } :=
  ⟨rfl, rfl, rfl, fun _ => rfl⟩

/-- A body that succeeds. -/
theorem Ran.ok {keeps : Prop} {s : State D} {db : Db D} {rc : Int} (lastId : Int)
    (hdb : Wrote s.db db) (hrc : 0 ≤ rc) :
    Ran keeps s (dbUnlock { moved s db with lastId := lastId }, rc) where
  frame := ((frame_moved s db).trans (frame_lastId _ lastId)).trans (frame_unlock _)
  lock := by rw [dbUnlock_lock, dbUnlock_lock]; rfl
  result := Or.inl ⟨hrc, dbUnlock_failedLevel _, by rw [dbUnlock_db]; exact hdb⟩

/-- What a failing body leaves: the level is marked, and the failure recorded if
    SQLite rolled back.  The order of the mark, the failure and the unlock does
    not matter. -/
theorem Ran.failed {keeps : Prop} {s t : State D} (db : Db D) (hframe : Frame s t)
    (hlock : t.lock = (dbUnlock s).lock) (hlevel : t.failedLevel = (mark s).failedLevel)
    (hdb : t.db = db)
    (hmoved : Wrote s.db db ∨ (¬ keeps ∧ Lost s.db db ∧ (s.active = true → t.fail ≠ none))) :
    Ran keeps s (t, -1) where
  frame := hframe
  lock := hlock
  result := Or.inr ⟨rfl, hlevel, by rw [hdb]; exact hmoved⟩

theorem lock_moved (s : State D) (db : Db D) :
    (dbUnlock (moved s db)).lock = (dbUnlock s).lock := by
  rw [dbUnlock_lock, dbUnlock_lock]
  rfl

theorem level_moved (s : State D) (db : Db D) :
    (mark (moved s db)).failedLevel = (mark s).failedLevel := by
  rw [mark_failedLevel, mark_failedLevel]
  rfl

/-- A database failure: recorded, marked and unlocked. -/
theorem Ran.failure {keeps : Prop} {s : State D} {db : Db D} (code : Nat)
    (hmoved : Wrote s.db db ∨ (¬ keeps ∧ Lost s.db db)) :
    Ran keeps s (dbUnlock (mark (dbFailure code (moved s db))), -1) := by
  refine Ran.failed db
    ((((frame_moved s db).trans (frame_failure code _)).trans (frame_mark _)).trans
      (frame_unlock _)) ?_ ?_ ?_ ?_
  · rw [← lock_moved s db, dbUnlock_lock, dbUnlock_lock]
    simp
  · rw [dbUnlock_failedLevel, ← level_moved s db, mark_failedLevel, mark_failedLevel]
    simp
  · simp [moved]
  · rcases hmoved with h | ⟨hk, h⟩
    · exact Or.inl h
    · refine Or.inr ⟨hk, h, fun hact => ?_⟩
      rw [dbUnlock_fail, mark_fail]
      exact dbFailure_fail (s := moved s db) hact code

/-- The same states in the orders in which the source writes them. -/
theorem failure_mark (code : Nat) (s : State D) :
    dbFailure code (mark s) = mark (dbFailure code s) := by
  rw [dbFailure_eq, dbFailure_eq code s]
  have hfail : (dbFailure code (mark s)).fail = (dbFailure code s).fail := by
    unfold dbFailure requestFailCode
    rw [mark_active, mark_fail]
    repeat' split
    all_goals first | rfl | exact mark_fail s
  rw [hfail, mark, mark]
  split <;> rfl

/-- Outside a transaction there is no level to mark. -/
theorem mark_zero {s : State D} (h : s.depth = 0) : mark s = s :=
  if_neg fun hc => hc.1 h

/-- Inside a transaction the lock is kept. -/
theorem dbUnlock_pos {s : State D} (h : s.depth ≠ 0) : dbUnlock s = s := if_neg h

theorem unlock_mark (s : State D) : mark (dbUnlock s) = dbUnlock (mark s) := by
  by_cases hd : s.depth = 0
  · rw [mark_zero hd, mark_zero ((dbUnlock_depth s).trans hd)]
  · rw [dbUnlock_pos hd, dbUnlock_pos fun h => hd ((mark_depth s).symm.trans h)]

/-- The database after a step, seen from the statement: it wrote, or one of the
    replies is an automatic rollback. -/
theorem step_moved (st : Stmt D) (db : Db D) :
    Wrote db ((nextStep st.steps).1.apply db)
      ∨ (¬ Stmt.keeps st ∧ Lost db ((nextStep st.steps).1.apply db)) := by
  rcases apply_cases (nextStep st.steps).1 db with h | ⟨hk, h⟩
  · exact Or.inl h
  · refine Or.inr ⟨fun hkeeps => ?_, h⟩
    rw [(nextStep_keeps _ hkeeps).1] at hk
    exact nomatch hk

/-- The body of `db_execute` behind `prepare_statement`. -/
def executeBody (sql : Bytes) (st : Stmt D) (s : State D) : State D × Int :=
  let r := (nextStep st.steps).1
  let s := { s with db := r.apply s.db }
  match r with
  | .error code _ => (dbUnlock (dbFailure code (mark s)), -1)
  | .rolledBack code => (dbUnlock (dbFailure code (mark s)), -1)
  | _ =>
      let lastId :=
        if st.changes > 0 ∧ startsWithInsert sql = true ∧ INT_MIN ≤ st.rowid
            ∧ st.rowid ≤ INT_MAX then st.rowid else s.lastId
      (dbUnlock { s with lastId := lastId }, st.changes)

theorem executeBody_ran (sql : Bytes) (st : Stmt D) (s : State D) :
    Ran (Stmt.keeps st) s (executeBody sql st s) := by
  have hmoved := step_moved st s.db
  unfold executeBody
  cases hr : (nextStep st.steps).1 with
  | row effect column decodes => exact Ran.ok _ ⟨effect, rfl⟩ (Int.natCast_nonneg _)
  | done effect => exact Ran.ok _ ⟨effect, rfl⟩ (Int.natCast_nonneg _)
  | error code effect =>
      rw [hr] at hmoved
      dsimp only
      rw [failure_mark]
      exact Ran.failure code hmoved
  | rolledBack code =>
      rw [hr] at hmoved
      dsimp only
      rw [failure_mark]
      exact Ran.failure code hmoved

/-- The body of `db_query_one` behind `prepare_statement`. -/
def queryOneBody (st : Stmt D) (s : State D) : State D × Int :=
  let r := (nextStep st.steps).1
  let s := { s with db := r.apply s.db }
  match r with
  | .row _ _ decodes =>
      let found : Int := if decodes then 1 else -1
      let s := dbUnlock s
      (if found < 0 then mark s else s, found)
  | .done _ => (dbUnlock s, 0)
  | _ => (dbUnlock (mark (dbFailure r.code s)), -1)

/-- A row that `row_to_struct` refuses is marked, but no database failure. -/
theorem Ran.badRow {keeps : Prop} {s : State D} {db : Db D} (hdb : Wrote s.db db) :
    Ran keeps s (dbUnlock (mark (moved s db)), -1) := by
  refine Ran.failed db (((frame_moved s db).trans (frame_mark _)).trans (frame_unlock _))
    ?_ ?_ ?_ (Or.inl hdb)
  · rw [← lock_moved s db, dbUnlock_lock, dbUnlock_lock, mark_depth, mark_lock]
  · rw [dbUnlock_failedLevel, level_moved]
  · rw [dbUnlock_db, mark_db]
    rfl

theorem queryOneBody_ran (st : Stmt D) (s : State D) :
    Ran (Stmt.keeps st) s (queryOneBody st s) := by
  have hmoved := step_moved st s.db
  unfold queryOneBody
  cases hr : (nextStep st.steps).1 with
  | row effect column decodes =>
      cases decodes with
      | true =>
          exact Ran.ok s.lastId ⟨effect, rfl⟩ (show (0 : Int) ≤ 1 by decide)
      | false =>
          show Ran _ s (mark (dbUnlock (moved s (s.db.write effect))), -1)
          rw [unlock_mark]
          exact Ran.badRow ⟨effect, rfl⟩
  | done effect =>
      exact Ran.ok s.lastId ⟨effect, rfl⟩ (show (0 : Int) ≤ 0 by decide)
  | error code effect =>
      rw [hr] at hmoved
      exact Ran.failure code hmoved
  | rolledBack code =>
      rw [hr] at hmoved
      exact Ran.failure code hmoved

/-- Every way out of the row loop: only an error may have lost the transaction. -/
def RowsSpec (keeps : Prop) (db : Db D) : RowsEnd × Db D → Prop
  | (.badRow, db') => Wrote db db'
  | (.rows _, db') => Wrote db db'
  | (.error _, db') => Wrote db db' ∨ (¬ keeps ∧ Lost db db')

theorem RowsSpec.after {keeps keeps' : Prop} {db db₁ : Db D} {r : RowsEnd × Db D}
    (hdb : Wrote db db₁) (hk : keeps → keeps') (h : RowsSpec keeps' db₁ r) :
    RowsSpec keeps db r := by
  obtain ⟨e, db'⟩ := r
  cases e with
  | badRow => exact Wrote.trans hdb h
  | rows n => exact Wrote.trans hdb h
  | error code =>
      rcases h with h | ⟨hno, h⟩
      · exact Or.inl (hdb.trans h)
      · exact Or.inr ⟨fun hkeeps => hno (hk hkeeps), hdb.lost h⟩

theorem queryRows_moved :
    ∀ (room count : Nat) (steps : List (StepReply D)) (db : Db D),
      RowsSpec (∀ r ∈ steps, StepReply.keeps r = true) db (queryRows room count steps db) := by
  intro room
  induction room with
  | zero => intro count steps db; exact Wrote.refl db
  | succ room ih =>
      intro count steps db
      have hkeeps := nextStep_keeps steps
      rw [queryRows]
      cases hn : nextStep steps with
      | mk r rest =>
          rw [hn] at hkeeps
          cases r with
          | row effect column decodes =>
              cases decodes with
              | false => exact ⟨effect, rfl⟩
              | true =>
                  exact RowsSpec.after ⟨effect, rfl⟩ (fun hall => (hkeeps hall).2)
                    (ih (count + 1) rest (db.write effect))
          | done effect => exact ⟨effect, rfl⟩
          | error code effect => exact Or.inl ⟨effect, rfl⟩
          | rolledBack code =>
              refine Or.inr ⟨fun hall => ?_, id, by rw [write_id]; rfl⟩
              exact nomatch (hkeeps hall).1

/-- The body of `db_query_many` behind `prepare_statement`. -/
def queryManyBody (max : Int) (st : Stmt D) (s : State D) : State D × Int :=
  match queryRows max.toNat 0 st.steps s.db with
  | (.badRow, db) => (dbUnlock (mark { s with db := db }), -1)
  | (.rows count, db) => (dbUnlock { s with db := db }, count)
  | (.error code, db) =>
      (mark (dbUnlock (dbFailure code { s with db := db })), -1)

theorem queryManyBody_ran (max : Int) (st : Stmt D) (s : State D) :
    Ran (Stmt.keeps st) s (queryManyBody max st s) := by
  have hmoved := queryRows_moved max.toNat 0 st.steps s.db
  unfold queryManyBody
  cases hq : queryRows max.toNat 0 st.steps s.db with
  | mk e db =>
      rw [hq] at hmoved
      cases e with
      | badRow => exact Ran.badRow hmoved
      | rows count =>
          exact Ran.ok s.lastId hmoved (Int.natCast_nonneg _)
      | error code =>
          dsimp only
          rw [unlock_mark]
          exact Ran.failure code hmoved

/-- The steps of `db_insert_id` write or lose the transaction; with an id, they
    wrote. -/
theorem insertSteps_moved (st : Stmt D) (db : Db D) :
    ((insertSteps st db).1 = -1 ∧
        (Wrote db (insertSteps st db).2.2
          ∨ (¬ Stmt.keeps st ∧ Lost db (insertSteps st db).2.2)))
      ∨ (0 < (insertSteps st db).1 ∧ Wrote db (insertSteps st db).2.2) := by
  have hmoved := step_moved st db
  unfold insertSteps
  split
  · exact Or.inl ⟨rfl, Or.inl (Wrote.refl db)⟩
  · dsimp only
    cases hr : (nextStep st.steps).1 with
    | row effect column decodes =>
        have hw : Wrote db (db.write effect) := ⟨effect, rfl⟩
        cases column with
        | none => exact Or.inl ⟨rfl, Or.inl hw⟩
        | some value =>
            dsimp only
            by_cases hv : 0 < value ∧ value ≤ INT_MAX
            · rw [if_pos hv]
              have hrest : Wrote db ((nextStep (nextStep st.steps).2).1.apply
                    (db.write effect))
                  ∨ (¬ Stmt.keeps st ∧ Lost db ((nextStep (nextStep st.steps).2).1.apply
                    (db.write effect))) := by
                rcases apply_cases (nextStep (nextStep st.steps).2).1 (db.write effect) with
                  h | ⟨hk, h⟩
                · exact Or.inl (hw.trans h)
                · refine Or.inr ⟨fun hkeeps => ?_, hw.lost h⟩
                  rw [(nextStep_keeps _ (nextStep_keeps _ hkeeps).2).1] at hk
                  exact nomatch hk
              cases hr' : (nextStep (nextStep st.steps).2).1 with
              | done effect' =>
                  rw [hr'] at hrest
                  by_cases hc : st.changes = 1
                  · exact Or.inr ⟨by rw [if_pos hc]; exact hv.1,
                      hw.trans ⟨effect', rfl⟩⟩
                  · exact Or.inl ⟨if_neg hc, hrest⟩
              | row e c d => rw [hr'] at hrest; exact Or.inl ⟨rfl, hrest⟩
              | error c e => rw [hr'] at hrest; exact Or.inl ⟨rfl, hrest⟩
              | rolledBack c => rw [hr'] at hrest; exact Or.inl ⟨rfl, hrest⟩
            · rw [if_neg hv]
              exact Or.inl ⟨rfl, Or.inl hw⟩
    | done effect => exact Or.inl ⟨rfl, Or.inl ⟨effect, rfl⟩⟩
    | error code effect => rw [hr] at hmoved; exact Or.inl ⟨rfl, hmoved⟩
    | rolledBack code => rw [hr] at hmoved; exact Or.inl ⟨rfl, hmoved⟩

/-- The body of `db_insert_id` behind `prepare_statement`. -/
def insertIdBody (st : Stmt D) (s : State D) : State D × Int :=
  let (id, code, db) := insertSteps st s.db
  let s := { s with db := db }
  let s := if id < 0 then dbFailure code s else s
  let (s, id) :=
    if st.finalize ≠ 0 then (dbFailure st.finalize s, -1) else (s, id)
  let s := if id < 0 then mark s else s
  (dbUnlock { s with lastId := id }, id)

/-- A failure of `db_insert_id`: recorded once or twice, then marked. -/
theorem Ran.insertFailed {keeps : Prop} {s t : State D} {db : Db D}
    (hmoved : Wrote s.db db ∨ (¬ keeps ∧ Lost s.db db))
    (ht : Frame (moved s db) t) (htdb : t.db = db) (htlock : t.lock = s.lock)
    (htlevel : t.failedLevel = s.failedLevel) (hfail : s.active = true → t.fail ≠ none) :
    Ran keeps s (dbUnlock { mark t with lastId := -1 }, -1) := by
  have hdepth : t.depth = s.depth := ht.depth
  refine Ran.failed db
    ((((frame_moved s db).trans ht).trans (frame_mark t)).trans
      ((frame_lastId _ (-1)).trans (frame_unlock _))) ?_ ?_ ?_ ?_
  · rw [dbUnlock_lock, dbUnlock_lock]
    show (if (mark t).depth = 0 then (mark t).lock.release else (mark t).lock) = _
    rw [mark_depth, mark_lock, hdepth, htlock]
  · rw [dbUnlock_failedLevel]
    show (mark t).failedLevel = _
    rw [mark_failedLevel, mark_failedLevel, hdepth, htlevel]
  · rw [dbUnlock_db]
    exact (mark_db t).trans htdb
  · rcases hmoved with h | ⟨hk, h⟩
    · exact Or.inl h
    · refine Or.inr ⟨hk, h, fun hact => ?_⟩
      rw [dbUnlock_fail]
      show (mark t).fail ≠ none
      rw [mark_fail]
      exact hfail hact

theorem insertIdBody_ran (st : Stmt D) (s : State D) :
    Ran (Stmt.keeps st) s (insertIdBody st s) := by
  have hmoved := insertSteps_moved st s.db
  unfold insertIdBody
  cases hq : insertSteps st s.db with
  | mk id r =>
      obtain ⟨code, db⟩ := r
      rw [hq] at hmoved
      have hdbs : Wrote s.db db ∨ (¬ Stmt.keeps st ∧ Lost s.db db) := by
        rcases hmoved with ⟨-, h⟩ | ⟨-, h⟩
        · exact h
        · exact Or.inl h
      dsimp only
      by_cases hfin : st.finalize ≠ 0
      · -- an error of `sqlite3_finalize` is recorded over whatever came before
        rw [if_pos hfin]
        refine Ran.insertFailed hdbs (t := dbFailure st.finalize
          (if id < 0 then dbFailure code (moved s db) else moved s db)) ?_ ?_ ?_ ?_ ?_
        · refine Frame.trans ?_ (frame_failure _ _)
          split
          · exact frame_failure _ _
          · exact Frame.refl _
        · rw [dbFailure_db]
          split
          · exact dbFailure_db _ _
          · rfl
        · rw [dbFailure_lock]
          split
          · exact dbFailure_lock _ _
          · rfl
        · rw [dbFailure_failedLevel]
          split
          · exact dbFailure_failedLevel _ _
          · rfl
        · intro hact
          refine dbFailure_fail ?_ _
          split
          · exact (dbFailure_active _ _).trans hact
          · exact hact
      · rw [if_neg hfin]
        rcases hmoved with ⟨hid, -⟩ | ⟨hid, hw⟩
        · obtain rfl : id = -1 := hid
          refine Ran.insertFailed hdbs (t := dbFailure code (moved s db))
            (frame_failure _ _) (dbFailure_db _ _) (dbFailure_lock _ _)
            (dbFailure_failedLevel _ _) fun hact => dbFailure_fail (s := moved s db) hact code
        · have hpos : 0 < id := hid
          rw [if_neg (by omega), if_neg (by omega)]
          exact Ran.ok id hw (by omega)

/-! ## The whole call -/

/-- The outside rolls nothing back by itself. -/
def Answers.keeps (a : Answers D) : Prop :=
  match a.prepare with
  | .ok (some st) _ => Stmt.keeps st
  | _ => True

/-- `db_lock` gets the lock at depth 0 and has it already above. -/
theorem dbLock_spec (r : LockReply) (s : State D) :
    (∃ s', dbLock r s = (s', false) ∧ s.depth = 0 ∧ Frame s s' ∧ s'.db = s.db
        ∧ s'.lock = s.lock ∧ s'.failedLevel = s.failedLevel)
      ∨ (dbLock r s
          = ({ s with lock := if s.depth = 0 then s.lock.acquire else s.lock }, true)) := by
  unfold dbLock
  by_cases hd : s.depth > 0
  · rw [if_pos hd, if_neg (by omega)]
    exact Or.inr rfl
  · have h0 : s.depth = 0 := by omega
    rw [if_neg hd, if_pos h0]
    cases r with
    | acquired => exact Or.inr rfl
    | gaveUp => exact Or.inl ⟨s, rfl, h0, Frame.refl s, rfl, rfl, rfl⟩
    | busy =>
        refine Or.inl ⟨_, rfl, h0, ?_⟩
        split
        · rw [requestFailCode_eq]
          refine ⟨⟨rfl, rfl, rfl, fun h => ?_⟩, rfl, rfl, rfl⟩
          exact requestFailCode_keeps h _ _ _
        · exact ⟨Frame.refl s, rfl, rfl, rfl⟩

/-- A call behind its argument checks: lock, prepare, run.  `pre` is what it
    does to `g_last_id` in between. -/
def issue (a : Answers D) (sql : Bytes) (q : Query) (pre : State D → State D)
    (body : Stmt D → State D → State D × Int) (s : State D) : State D × Int :=
  match dbLock a.lock s with
  | (s, false) => (s, -1)
  | (s, true) =>
      match prepareStatement sql (q.args.getD []) q.nargs a.prepare (pre s) with
      | (s, none) => (dbUnlock s, -1)
      | (s, some st) => body st s

theorem issue_spec {ready : Prop} (hready : ready) (a : Answers D) (sql : Bytes) (q : Query)
    {pre : State D → State D} (hpre : ∀ s, ∃ lastId, pre s = { s with lastId := lastId })
    {body : Stmt D → State D → State D × Int}
    (hbody : ∀ st s, Ran (Stmt.keeps st) s (body st s)) (s : State D) :
    CallSpec ready (Answers.keeps a) s (issue a sql q pre body s) := by
  unfold issue
  rcases dbLock_spec a.lock s with ⟨s', hl, h0, hframe, hdb, hlock, hlevel⟩ | hl
  · rw [hl]
    exact CallSpec.refused hframe (fun _ => h0) hlock hdb hlevel rfl
  · rw [hl]
    dsimp only
    obtain ⟨lastId, hs₁⟩ :=
      hpre { s with lock := if s.depth = 0 then s.lock.acquire else s.lock }
    rw [hs₁]
    -- locked: the same state but for the lock and `g_last_id`
    generalize hs₂ : ({ s with lock := if s.depth = 0 then s.lock.acquire else s.lock,
                               lastId := lastId } : State D) = s₂
    have hframe : Frame s s₂ := by
      rw [← hs₂]
      exact ⟨rfl, rfl, rfl, fun _ => rfl⟩
    have hmark : (mark s₂).failedLevel = (mark s).failedLevel := by
      rw [mark_failedLevel, mark_failedLevel, ← hs₂]
    have hunlock : (dbUnlock s₂).lock
        = if s.depth = 0 then s.lock.acquire.release else s.lock := by
      rw [dbUnlock_lock, ← hs₂]
      dsimp only
      split <;> rfl
    rcases prepareStatement_spec sql (q.args.getD []) q.nargs a.prepare s₂ with
      ⟨s₃, hp, hframe₃, hdb, hlock, hlevel⟩ | ⟨st, tail, hp, hlive, hprep⟩
    · rw [hp]
      refine CallSpec.unprepared hready ((hframe.trans hframe₃).trans (frame_unlock s₃))
        ?_ ?_ ?_ rfl
      · rw [← hunlock]
        show (dbUnlock s₃).lock = _
        rw [dbUnlock_lock, dbUnlock_lock, hframe₃.depth, hlock]
      · show (dbUnlock s₃).db = s.db
        rw [dbUnlock_db, hdb, ← hs₂]
      · show (dbUnlock s₃).failedLevel = _
        rw [dbUnlock_failedLevel, hlevel, hmark]
    · rw [hp]
      have hran := hbody st s₂
      have hdb₂ : s₂.db = s.db := by rw [← hs₂]
      have hact₂ : s₂.active = s.active := by rw [← hs₂]
      refine CallSpec.ran hready ?_ (hframe.trans hran.frame) (hran.lock.trans hunlock) ?_
      · obtain ⟨h1, h2⟩ := hlive
        rw [← hs₂] at h1 h2
        exact ⟨h1, h2⟩
      · have hresult := hran.result
        rw [hdb₂, hact₂, hmark] at hresult
        have hlevel₂ : s₂.failedLevel = s.failedLevel := by rw [← hs₂]
        rw [hlevel₂] at hresult
        have hkeeps : Answers.keeps a ↔ Stmt.keeps st := by
          rw [Answers.keeps, hprep]
        rw [hkeeps]
        exact hresult

/-- The call got past its own argument checks. -/
def Call.ready : Call D → Bool
  | .execute q _ => q.sql.isSome && argsOk q
  | .insertId q a =>
      match q.sql with
      | none => false
      | some sql =>
          argsOk q && 3035000 ≤ a.libversion && (cstr sql).length < DB_MAX_SQL
            && startsWithInsert sql
  | .queryOne valid q _ => q.sql.isSome && valid && argsOk q
  | .queryMany valid max q _ =>
      q.sql.isSome && valid && argsOk q && 0 < max && max ≤ (SQLITE_MAX_ROWS : Int)

/-- No reply to the call is an automatic rollback. -/
def Call.keeps : Call D → Prop
  | .execute _ a => Answers.keeps a
  | .insertId _ a => Answers.keeps a
  | .queryOne _ _ a => Answers.keeps a
  | .queryMany _ _ _ a => Answers.keeps a

/-- A call that its argument checks refuse. -/
theorem CallSpec.early {ready keeps : Prop} {s t : State D} (hno : ¬ ready)
    (ht : ∃ lastId, t = { s with lastId := lastId }) : CallSpec ready keeps s (t, -1) := by
  obtain ⟨lastId, rfl⟩ := ht
  exact CallSpec.refused (frame_lastId s lastId) (fun h => absurd h hno) rfl rfl rfl rfl

/-- `g_last_id` plays no part in it. -/
theorem CallSpec.lastId {ready keeps : Prop} {s : State D} {r : State D × Int} {lastId : Int}
    (h : CallSpec ready keeps { s with lastId := lastId } r) : CallSpec ready keeps s r := by
  have hmark : (mark { s with lastId := lastId }).failedLevel = (mark s).failedLevel := by
    rw [mark_failedLevel, mark_failedLevel]
  have hframe : ∀ {t}, Frame { s with lastId := lastId } t → Frame s t :=
    fun ht => (frame_lastId s lastId).trans ht
  cases h with
  | refused frame cause lock db failedLevel rc =>
      exact CallSpec.refused (hframe frame) cause lock db failedLevel rc
  | unprepared ready frame lock db failedLevel rc =>
      exact CallSpec.unprepared ready (hframe frame) lock db (failedLevel.trans hmark) rc
  | ran ready live frame lock result =>
      rw [hmark] at result
      exact CallSpec.ran ready live (hframe frame) lock result

/-- **What a data call can do.** -/
theorem call_spec (c : Call D) (s : State D) :
    CallSpec (Call.ready c = true) (Call.keeps c) s (c.run s) := by
  cases c with
  | execute q a =>
      rw [Call.run, dbExecute]
      cases hq : q.sql with
      | none => exact CallSpec.early (by simp [Call.ready, hq]) ⟨s.lastId, rfl⟩
      | some sql =>
          dsimp only
          by_cases hargs : argsOk q = true
          · rw [if_neg (by simp [hargs])]
            exact issue_spec (by simp [Call.ready, hq, hargs]) a sql q
              (fun s => ⟨-1, rfl⟩) (executeBody_ran sql) s
          · rw [if_pos (by simp [hargs])]
            exact CallSpec.early (by simp [Call.ready, hargs]) ⟨s.lastId, rfl⟩
  | insertId q a =>
      rw [Call.run, dbInsertId]
      cases hq : q.sql with
      | none => exact CallSpec.early (by simp [Call.ready, hq]) ⟨-1, rfl⟩
      | some sql =>
          dsimp only
          by_cases hready : Call.ready (.insertId q a) = true
          · have hr := hready
            simp only [Call.ready, hq, Bool.and_eq_true, decide_eq_true_eq] at hr
            obtain ⟨⟨⟨h1, h2⟩, h3⟩, h4⟩ := hr
            rw [if_neg (by simp [h1]; omega), if_neg (by omega), if_neg (by simp [h4])]
            exact (issue_spec hready a sql q (fun s => ⟨s.lastId, rfl⟩) insertIdBody_ran
              { s with lastId := -1 }).lastId
          · -- whichever check fails, nothing but `g_last_id` has changed
            have hearly : ∀ rest : State D × Int, argsOk q = true →
                3035000 ≤ a.libversion → (cstr sql).length < DB_MAX_SQL →
                startsWithInsert sql = true → CallSpec (Call.ready (.insertId q a) = true)
                  (Call.keeps (.insertId q a)) s rest := by
              intro rest h1 h2 h3 h4
              exact absurd (by simp [Call.ready, hq, h1, h2, h3, h4]) hready
            have hno : CallSpec (Call.ready (.insertId q a) = true)
                (Call.keeps (.insertId q a)) s ({ s with lastId := -1 }, -1) :=
              CallSpec.early hready ⟨-1, rfl⟩
            by_cases h1 : !argsOk q ∨ a.libversion < 3035000
            · rw [if_pos h1]
              exact hno
            · rw [if_neg h1]
              by_cases h3 : (cstr sql).length ≥ DB_MAX_SQL
              · rw [if_pos h3]
                exact hno
              · rw [if_neg h3]
                by_cases h4 : startsWithInsert sql = true
                · rw [not_or] at h1
                  exact hearly _ (by simpa using h1.1) (by omega) (by omega) h4
                · rw [if_pos (by simpa using h4)]
                  exact hno
  | queryOne valid q a =>
      rw [Call.run, dbQueryOne]
      cases hq : q.sql with
      | none => exact CallSpec.early (by simp [Call.ready, hq]) ⟨s.lastId, rfl⟩
      | some sql =>
          dsimp only
          by_cases hargs : (!valid || !argsOk q) = true
          · rw [if_pos hargs]
            refine CallSpec.early ?_ ⟨s.lastId, rfl⟩
            simp only [Bool.or_eq_true, Bool.not_eq_true'] at hargs
            rcases hargs with h | h <;> simp [Call.ready, h]
          · rw [if_neg hargs]
            refine issue_spec ?_ a sql q (fun s => ⟨s.lastId, rfl⟩) queryOneBody_ran s
            simpa [Call.ready, hq] using hargs
  | queryMany valid max q a =>
      rw [Call.run, dbQueryMany]
      cases hq : q.sql with
      | none => exact CallSpec.early (by simp [Call.ready, hq]) ⟨s.lastId, rfl⟩
      | some sql =>
          dsimp only
          by_cases hargs : (!valid || !argsOk q || decide (max ≤ 0)
              || decide (max > (SQLITE_MAX_ROWS : Int))) = true
          · rw [if_pos hargs]
            refine CallSpec.early (fun hready => ?_) ⟨s.lastId, rfl⟩
            simp only [Call.ready, hq, Option.isSome_some, Bool.true_and, Bool.and_eq_true,
              decide_eq_true_eq] at hready
            simp only [Bool.or_eq_true, Bool.not_eq_true', decide_eq_true_eq] at hargs
            obtain ⟨⟨⟨h1, h2⟩, h3⟩, h4⟩ := hready
            rcases hargs with ((h | h) | h) | h
            · rw [h1] at h; cases h
            · rw [h2] at h; cases h
            · omega
            · omega
          · rw [if_neg hargs]
            refine issue_spec ?_ a sql q (fun s => ⟨s.lastId, rfl⟩) (queryManyBody_ran max) s
            simp only [Bool.or_eq_true, Bool.not_eq_true', decide_eq_true_eq, not_or,
              Bool.not_eq_false] at hargs
            obtain ⟨⟨⟨h1, h2⟩, h3⟩, h4⟩ := hargs
            simp only [Call.ready, hq, Option.isSome_some, Bool.true_and, Bool.and_eq_true,
              decide_eq_true_eq]
            exact ⟨⟨⟨h1, h2⟩, by omega⟩, by omega⟩

end DbCalls

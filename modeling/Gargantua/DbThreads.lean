import Gargantua.Lib.Runs
import Gargantua.DbNested

/-! # The database lock between threads

    `g_db_lock` is taken by `db_lock` and released by `db_unlock`, and both look
    at `t_depth` to see whether the thread has it already; in between, the same
    functions move `t_depth`.  Here any number of threads issue any calls.  A
    call runs up to its `db_lock`, waits there while others run, and runs from
    the acquired lock to its return; the shared connection changes under the
    running thread only.

    `db_open`, `db_close`, `db_check_schema` and `db_ready` are added to the
    calls of the other modules. -/

namespace DbThreads

open CString Savepoint DbSqlite DbCalls DbNested Runs

variable {D : Type}

/-! ## The remaining calls -/

/-- What SQLite answers to `db_open`: no connection, a connection on which the
    foreign keys cannot be enabled (by an error, or silently), or one that
    works. -/
inductive OpenReply (D : Type) where
  | failed
  | pragmaFailed (code : Nat)
  | foreignKeysOff
  | opened (disk : D)

/-- `db_open`, once it has the lock. -/
def dbOpenLocked (url : Bytes) (reply : OpenReply D) (s : State D) : State D × Int :=
  if s.isOpen ∨ cstr url = [] then (dbUnlock s, -1)
  else
    match reply with
    | .failed => (dbUnlock { s with isOpen := false }, -1)
    | .pragmaFailed code =>
        (dbUnlock { dbFailure code (mark s) with isOpen := false }, -1)
    | .foreignKeysOff => (dbUnlock { s with isOpen := false }, -1)
    | .opened disk => (dbUnlock { s with db := ⟨disk, none⟩, isOpen := true }, 0)

/-- `db_close`, once it has the lock; it returns nothing. -/
def dbCloseLocked (s : State D) : State D × Int :=
  (dbUnlock (if s.isOpen then { s with db := s.db.drop, isOpen := false } else s), 0)

/-- `db_check_schema`, once it has the lock; `reply` is what
    `sqlite_schema_check` returns. -/
def dbCheckSchemaLocked (reply : Int) (s : State D) : State D × Int :=
  (dbUnlock s, if s.isOpen then reply else -1)

/-- `db_ready`, once it has the lock. -/
def dbReadyLocked (s : State D) : State D × Int :=
  (dbUnlock s, if s.isOpen then 1 else 0)

/-! ## The two phases of a call -/

/-- One call of the client's interface, with what the outside answers. -/
inductive DbCall (D : Type) where
  | op (op : Op D)
  | open_ (url : Bytes) (reply : OpenReply D)
  | close (abort : ControlAnswer)
  | checkSchema (valid : Bool) (reply : Int)
  | ready

/-- A call up to its `db_lock`: the value it has already returned, if it returns
    without asking for the lock. -/
def before : DbCall D → State D → State D × Option Int
  | .op (.data (.execute q _)), s =>
      (s, if q.sql.isNone || !argsOk q then some (-1) else none)
  | .op (.data (.insertId q a)), s =>
      ({ s with lastId := -1 },
        if Call.ready (.insertId q a) then none else some (-1))
  | .op (.data (.queryOne valid q _)), s =>
      (s, if q.sql.isNone || !valid || !argsOk q then some (-1) else none)
  | .op (.data (.queryMany valid max q _)), s =>
      (s, if q.sql.isNone || !valid || !argsOk q || max ≤ 0
            || max > (SQLITE_MAX_ROWS : Int) then some (-1) else none)
  | .op (.tx (.begin _ _)), s => (s, if s.depth ≥ MAX_DEPTH then some (-1) else none)
  | .op (.tx (.commit a)), s => ((dbCommit a s).1, some (dbCommit a s).2)
  | .op (.tx (.rollback a)), s => ((dbRollback a s).1, some (dbRollback a s).2)
  | .op (.tx (.abortAll a)), s => (dbAbortAll a s, some 0)
  | .open_ _ _, s => (s, none)
  | .close abort, s => (dbAbortAll abort s, none)
  | .checkSchema valid _, s => (s, if valid then none else some (-1))
  | .ready, s => (s, none)

/-- What a call returns when `db_lock` gives up. -/
def refusal : DbCall D → Int
  | .close _ => 0
  | .ready => 0
  | _ => -1

/-- `prepare_statement` and what follows it, under the lock. -/
def statementLocked (a : Answers D) (q : Query) (body : Bytes → Stmt D → State D → State D × Int)
    (s : State D) : State D × Int :=
  match prepareStatement (q.sql.getD []) (q.args.getD []) q.nargs a.prepare s with
  | (s, none) => (dbUnlock s, -1)
  | (s, some st) => body (q.sql.getD []) st s

/-- `db_begin`, once it has the lock. -/
def dbBeginLocked (a : ControlAnswer) (s : State D) : State D × Int :=
  if !s.isOpen ∨ (s.depth > 0 ∧ s.db.autocommit = true) then (dbUnlock s, -1)
  else
    let c := if s.depth = 0 then Control.begin else .savepoint (s.depth + 1)
    match runControlStatement [(c, a.first)] a.code s with
    | (s, false) => (dbUnlock s, -1)
    | (s, true) => ({ s with depth := s.depth + 1 }, 0)

/-- A call from the acquired lock to its return. -/
def locked : DbCall D → State D → State D × Int
  | .op (.data (.execute q a)), s => statementLocked a q executeBody { s with lastId := -1 }
  | .op (.data (.insertId q a)), s => statementLocked a q (fun _ => insertIdBody) s
  | .op (.data (.queryOne _ q a)), s => statementLocked a q (fun _ => queryOneBody) s
  | .op (.data (.queryMany _ max q a)), s =>
      statementLocked a q (fun _ => queryManyBody max) s
  | .op (.tx (.begin _ a)), s => dbBeginLocked a s
  | .op (.tx _), s => (s, -1)
  | .open_ url reply, s => dbOpenLocked url reply s
  | .close _, s => dbCloseLocked s
  | .checkSchema _ reply, s => dbCheckSchemaLocked reply s
  | .ready, s => dbReadyLocked s

/-- The call without anything in between. -/
def whole (l : LockReply) (c : DbCall D) (s : State D) : State D × Int :=
  match before c s with
  | (s, some rc) => (s, rc)
  | (s, none) =>
      match dbLock l s with
      | (s, false) => (s, refusal c)
      | (s, true) => locked c s

/-- The lock reply that a call of the other modules carries. -/
def lockReply : Op D → LockReply
  | .data (.execute _ a) => a.lock
  | .data (.insertId _ a) => a.lock
  | .data (.queryOne _ _ a) => a.lock
  | .data (.queryMany _ _ _ a) => a.lock
  | .tx (.begin l _) => l
  | .tx _ => .gaveUp

/-! ## The phases are the calls -/

theorem issue_eq (a : Answers D) (sql : Bytes) (q : Query) (hq : q.sql = some sql)
    (pre : State D → State D) (body : Bytes → Stmt D → State D → State D × Int) (s : State D) :
    issue a sql q pre (body sql) s
      = match dbLock a.lock s with
        | (s, false) => (s, -1)
        | (s, true) => statementLocked a q body (pre s) := by
  unfold issue statementLocked
  rw [hq]
  rfl

theorem whole_data (c : Call D) (s : State D) :
    whole (lockReply (.data c)) (.op (.data c)) s = c.run s := by
  cases c with
  | execute q a =>
      rw [Call.run, dbExecute, whole, before]
      cases hq : q.sql with
      | none => rfl
      | some sql =>
          by_cases hargs : argsOk q = true
          · rw [if_neg (by simp [hargs])]
            dsimp only
            rw [if_neg (by simp [hargs])]
            exact (issue_eq a sql q hq (fun s => { s with lastId := -1 }) executeBody s).symm
          · rw [if_pos (by simp [hargs])]
            dsimp only
            rw [if_pos (by simp [hargs])]
  | insertId q a =>
      rw [Call.run, dbInsertId, whole, before]
      cases hq : q.sql with
      | none => simp [Call.ready, hq]
      | some sql =>
          dsimp only
          by_cases h1 : !argsOk q ∨ a.libversion < 3035000
          · have hno : Call.ready (.insertId q a) = false := by
              simp only [Call.ready, hq]
              rcases h1 with h | h
              · simp [(Bool.not_eq_true' _).mp h]
              · simp [Nat.not_le.mpr h]
            rw [if_pos h1, hno]
            rfl
          rw [if_neg h1]
          rw [not_or] at h1
          have hargs : argsOk q = true := by simpa using h1.1
          have hver : 3035000 ≤ a.libversion := Nat.not_lt.mp h1.2
          by_cases h3 : (cstr sql).length ≥ DB_MAX_SQL
          · have hno : Call.ready (.insertId q a) = false := by
              simp [Call.ready, hq, Nat.not_lt.mpr h3]
            rw [if_pos h3, hno]
            rfl
          rw [if_neg h3]
          by_cases h4 : startsWithInsert sql = true
          · have hyes : Call.ready (.insertId q a) = true := by
              simp [Call.ready, hq, hargs, hver, Nat.not_le.mp h3, h4]
            rw [hyes, if_pos rfl, if_neg (by simp [h4])]
            exact (issue_eq a sql q hq id (fun _ => insertIdBody) { s with lastId := -1 }).symm
          · have hno : Call.ready (.insertId q a) = false := by
              simp [Call.ready, hq, h4]
            rw [hno, if_neg Bool.false_ne_true, if_pos (by simpa using h4)]
  | queryOne valid q a =>
      rw [Call.run, dbQueryOne, whole, before]
      cases hq : q.sql with
      | none => rfl
      | some sql =>
          simp only [Option.isNone_some, Bool.false_or]
          by_cases hargs : (!valid || !argsOk q) = true
          · rw [if_pos hargs, if_pos hargs]
          · rw [if_neg hargs, if_neg hargs]
            exact (issue_eq a sql q hq id (fun _ => queryOneBody) s).symm
  | queryMany valid max q a =>
      rw [Call.run, dbQueryMany, whole, before]
      cases hq : q.sql with
      | none => rfl
      | some sql =>
          simp only [Option.isNone_some, Bool.false_or]
          by_cases hargs : (!valid || !argsOk q || decide (max ≤ 0)
              || decide (max > (SQLITE_MAX_ROWS : Int))) = true
          · rw [if_pos hargs, if_pos hargs]
          · rw [if_neg hargs, if_neg hargs]
            exact (issue_eq a sql q hq id (fun _ => queryManyBody max) s).symm

/-- Run without interruption, the phases are the call of the other modules. -/
theorem whole_eq (op : Op D) (s : State D) : whole (lockReply op) (.op op) s = op.run s := by
  cases op with
  | data c => exact whole_data c s
  | tx c =>
      cases c with
      | begin l a =>
          show whole l _ s = dbBegin l a s
          rw [dbBegin, whole, before]
          by_cases hd : s.depth ≥ MAX_DEPTH
          · rw [if_pos hd, if_pos hd]
          · rw [if_neg hd, if_neg hd]
            rfl
      | commit a => rfl
      | rollback a => rfl
      | abortAll a => rfl

/-! ## The machine -/

/-- What a thread keeps between calls. -/
structure Local where
  depth : Nat
  failedLevel : Nat
  lastId : Int
  active : Bool
  fail : Option Failure

/-- Where a thread is: outside the client, waiting at `db_lock`, or behind it. -/
inductive Pc (D : Type) where
  | idle
  | waiting (c : DbCall D)
  | inside (c : DbCall D)

/-- The shared connection and its lock, and the threads.  `broken` records an
    acquire by the owner or a release by anyone else. -/
structure World (D T : Type) where
  db : Db D
  isOpen : Bool
  owner : Option T
  broken : Bool
  threads : T → Local
  pc : T → Pc D

variable {T : Type} [DecidableEq T]

/-- The state as one thread sees it. -/
def view (w : World D T) (t : T) : State D :=
  let l := w.threads t
  { db := w.db, isOpen := w.isOpen, depth := l.depth, failedLevel := l.failedLevel,
    lastId := l.lastId, lock := if w.owner = some t then .held else .free,
    active := l.active, fail := l.fail }

/-- What the thread leaves behind, and where it goes on. -/
def store (w : World D T) (t : T) (s : State D) (pc : Pc D) : World D T :=
  { db := s.db, isOpen := s.isOpen
    owner :=
      match s.lock with
      | .held => some t
      | .free => if w.owner = some t then none else w.owner
      | .broken => w.owner
    broken := w.broken || s.lock == .broken
    threads := Function.update w.threads t
      ⟨s.depth, s.failedLevel, s.lastId, s.active, s.fail⟩
    pc := Function.update w.pc t pc }

/-- What a thread can do next. -/
inductive Event (D T : Type) where
  | issue (t : T) (c : DbCall D)
  | attempt (t : T) (l : LockReply)
  | finish (t : T)
  | request (t : T) (active : Bool)

/-- One event, if the thread is in a place for it.  `pthread_mutex_trylock` fails
    while another thread owns the lock. -/
def step (w : World D T) : Event D T → Option (World D T)
  | .issue t c =>
      match w.pc t with
      | .idle =>
          match before c (view w t) with
          | (s, some _) => some (store w t s .idle)
          | (s, none) => some (store w t s (.waiting c))
      | _ => none
  | .attempt t l =>
      match w.pc t with
      | .waiting c =>
          if l = .acquired ∧ (w.threads t).depth = 0 ∧ w.owner ≠ none ∧ w.owner ≠ some t then
            none
          else
            match dbLock l (view w t) with
            | (s, false) => some (store w t s .idle)
            | (s, true) => some (store w t s (.inside c))
      | _ => none
  | .finish t =>
      match w.pc t with
      | .inside c => some (store w t (locked c (view w t)).1 .idle)
      | _ => none
  | .request t active =>
      match w.pc t with
      | .idle => some (store w t { view w t with active := active, fail := none } .idle)
      | _ => none

/-- No thread has called yet. -/
def initial (db : Db D) (isOpen : Bool) : World D T :=
  { db := db, isOpen := isOpen, owner := none, broken := false
    threads := fun _ => ⟨0, 0, 0, false, none⟩
    pc := fun _ => .idle }

/-! ## The lock discipline of one thread -/

/-- The lock is held exactly while a level is open. -/
def Balanced (s : State D) : Prop := s.lock = if s.depth = 0 then .free else .held

theorem balanced_unlock {s : State D} (h : s.lock = .held) : Balanced (dbUnlock s) := by
  rw [Balanced, dbUnlock_lock, dbUnlock_depth, h]
  split <;> rfl

/-- `db_lock` on a balanced thread: it has the lock, or nothing has changed. -/
theorem dbLock_balanced {s : State D} (h : Balanced s) (l : LockReply) :
    ((dbLock l s).2 = true ∧ (dbLock l s).1.lock = .held)
      ∨ ((dbLock l s).2 = false ∧ Balanced (dbLock l s).1) := by
  have hl : s.lock = if s.depth = 0 then .free else .held := h
  rcases dbLock_spec l s with ⟨s', heq, hd, hframe, -, hlock, -⟩ | heq
  · rw [heq]
    refine Or.inr ⟨rfl, ?_⟩
    show s'.lock = _
    rw [hlock, hframe.depth]
    exact hl
  · rw [heq]
    refine Or.inl ⟨rfl, ?_⟩
    show (if s.depth = 0 then s.lock.acquire else s.lock) = .held
    rw [hl]
    split <;> rfl

/-- Every exit of a statement gives the lock back, unless a level is open. -/
theorem statement_balanced {a : Answers D} {q : Query}
    {body : Bytes → Stmt D → State D → State D × Int}
    (hbody : ∀ sql st s, (body sql st s).1.lock = (dbUnlock s).lock
      ∧ (body sql st s).1.depth = s.depth)
    {s : State D} (h : s.lock = .held) : Balanced (statementLocked a q body s).1 := by
  unfold statementLocked
  rcases prepareStatement_spec (q.sql.getD []) (q.args.getD []) q.nargs a.prepare s with
    ⟨s', heq, -, -, hlock, -⟩ | ⟨st, -, heq, -, -⟩
  · rw [heq]
    exact balanced_unlock (hlock.trans h)
  · rw [heq]
    obtain ⟨hlock, hdepth⟩ := hbody (q.sql.getD []) st s
    have hb : Balanced (dbUnlock s) := balanced_unlock h
    rw [Balanced, dbUnlock_depth] at hb
    show (body _ st s).1.lock = if (body _ st s).1.depth = 0 then _ else _
    rw [hlock, hdepth, hb]

theorem control_lock (cs : List (Control × Reply)) (code : Nat) (s : State D) :
    (runControlStatement cs code s).1.lock = s.lock
      ∧ (runControlStatement cs code s).1.depth = s.depth := by
  unfold runControlStatement
  split
  · exact ⟨dbFailure_lock _ s, dbFailure_depth _ s⟩
  · split
    · exact ⟨rfl, rfl⟩
    · exact ⟨dbFailure_lock code _, dbFailure_depth code _⟩

theorem begin_balanced {s : State D} (h : s.lock = .held) (a : ControlAnswer) :
    Balanced (dbBeginLocked a s).1 := by
  unfold dbBeginLocked
  split
  · exact balanced_unlock h
  dsimp only
  generalize (if s.depth = 0 then Control.begin else .savepoint (s.depth + 1)) = c
  have hl := (control_lock [(c, a.first)] a.code s).1
  cases hr : runControlStatement [(c, a.first)] a.code s with
  | mk t ok =>
      rw [hr] at hl
      cases ok with
      | true => exact (hl.trans h).trans (if_neg (Nat.succ_ne_zero _)).symm
      | false => exact balanced_unlock (hl.trans h)

/-- A level is open, so the thread has the lock. -/
theorem Balanced.held {s : State D} (h : Balanced s) (hd : s.depth ≠ 0) : s.lock = .held :=
  Eq.trans h (if_neg hd)

theorem commit_balanced {s : State D} (h : Balanced s) (a : ControlAnswer) :
    Balanced (dbCommit a s).1 := by
  unfold dbCommit
  by_cases hc : s.depth = 0 ∨ s.failedLevel ≠ 0 ∨ !s.isOpen ∨ s.db.autocommit = true
  · rw [if_pos hc]
    exact h
  rw [if_neg hc]
  have hd : s.depth ≠ 0 := fun h0 => hc (Or.inl h0)
  dsimp only
  generalize (if s.depth = 1 then Control.commit else .release s.depth) = c
  obtain ⟨hl, hdepth⟩ := control_lock [(c, a.first)] a.code s
  cases hr : runControlStatement [(c, a.first)] a.code s with
  | mk t ok =>
      rw [hr] at hl hdepth
      cases ok with
      | true => exact balanced_unlock (hl.trans (h.held hd))
      | false =>
          show t.lock = if t.depth = 0 then _ else _
          rw [hl, hdepth]
          exact h

theorem rollback_balanced {s : State D} (h : Balanced s) (a : ControlAnswer) :
    Balanced (dbRollback a s).1 := by
  unfold dbRollback
  by_cases hc : s.depth = 0 ∨ !s.isOpen
  · rw [if_pos hc]
    exact h
  rw [if_neg hc]
  have hheld := h.held fun h0 => hc (Or.inl h0)
  by_cases hauto : (!s.db.autocommit) = true
  · rw [if_pos hauto]
    obtain ⟨hl, hdepth⟩ := control_lock (rollbackText s.depth a) a.code s
    cases hr : runControlStatement (rollbackText s.depth a) a.code s with
    | mk t ok =>
        rw [hr] at hl hdepth
        cases ok with
        | true => exact balanced_unlock (hl.trans hheld)
        | false =>
            show t.lock = if t.depth = 0 then _ else _
            rw [hl, hdepth]
            exact h
  · rw [if_neg hauto]
    exact balanced_unlock hheld

theorem abortAll_balanced {s : State D} (h : Balanced s) (a : ControlAnswer) :
    Balanced (dbAbortAll a s) := by
  unfold dbAbortAll
  by_cases hd : s.depth = 0
  · rw [if_pos hd]
    exact h
  rw [if_neg hd]
  have hl := (control_lock [(.rollback, a.first)] a.code s).1
  cases hr : runControlStatement [(.rollback, a.first)] a.code s with
  | mk t ok =>
      rw [hr] at hl
      refine balanced_unlock ?_
      show State.lock (if _ then _ else _) = .held
      split
      · exact hl.trans (h.held hd)
      · exact hl.trans (h.held hd)

/-- Up to its `db_lock` a call keeps the thread balanced. -/
theorem before_balanced {s : State D} (h : Balanced s) (c : DbCall D) :
    Balanced (before c s).1 := by
  cases c with
  | op op =>
      cases op with
      | data c => cases c <;> exact h
      | tx c =>
          cases c with
          | begin l a => exact h
          | commit a => exact commit_balanced h a
          | rollback a => exact rollback_balanced h a
          | abortAll a => exact abortAll_balanced h a
  | open_ url reply => exact h
  | close abort => exact abortAll_balanced h abort
  | checkSchema valid reply => exact h
  | ready => exact h

/-- The calls that ask for the lock. -/
def DbCall.locks : DbCall D → Bool
  | .op (.tx (.begin _ _)) => true
  | .op (.tx _) => false
  | _ => true

/-- A call that goes on to its `db_lock` is one that asks for the lock. -/
theorem before_locks {c : DbCall D} {s : State D} (h : (before c s).2 = none) :
    c.locks = true := by
  cases c with
  | op op =>
      cases op with
      | data c => rfl
      | tx c =>
          cases c with
          | begin l a => rfl
          | commit a => exact nomatch h
          | rollback a => exact nomatch h
          | abortAll a => exact nomatch h
  | open_ url reply => rfl
  | close abort => rfl
  | checkSchema valid reply => rfl
  | ready => rfl

/-- Outside a transaction a call does nothing to the lock before its
    `db_lock`. -/
theorem before_idle {s : State D} (hd : s.depth = 0) (c : DbCall D) :
    (before c s).1.lock = s.lock := by
  cases c with
  | op op =>
      cases op with
      | data c => cases c <;> rfl
      | tx c =>
          cases c with
          | begin l a => rfl
          | commit a =>
              show (dbCommit a s).1.lock = _
              rw [dbCommit, if_pos (Or.inl hd)]
          | rollback a =>
              show (dbRollback a s).1.lock = _
              rw [dbRollback, if_pos (Or.inl hd)]
          | abortAll a =>
              show (dbAbortAll a s).lock = _
              rw [dbAbortAll, if_pos hd]
  | open_ url reply => rfl
  | close abort =>
      show (dbAbortAll abort s).lock = _
      rw [dbAbortAll, if_pos hd]
  | checkSchema valid reply => rfl
  | ready => rfl

/-- Behind its `db_lock` a call gives the lock back, unless it leaves a level
    open. -/
theorem locked_balanced {s : State D} (h : s.lock = .held) {c : DbCall D}
    (hc : c.locks = true) : Balanced (locked c s).1 := by
  have hran : ∀ {keeps : Prop} {s : State D} {r : State D × Int}, Ran keeps s r →
      r.1.lock = (dbUnlock s).lock ∧ r.1.depth = s.depth :=
    fun hr => ⟨hr.lock, hr.frame.depth⟩
  cases c with
  | op op =>
      cases op with
      | data c =>
          cases c with
          | execute q a =>
              exact statement_balanced (fun sql st s => hran (executeBody_ran sql st s)) h
          | insertId q a =>
              exact statement_balanced (fun _ st s => hran (insertIdBody_ran st s)) h
          | queryOne valid q a =>
              exact statement_balanced (fun _ st s => hran (queryOneBody_ran st s)) h
          | queryMany valid max q a =>
              exact statement_balanced (fun _ st s => hran (queryManyBody_ran max st s)) h
      | tx c =>
          cases c with
          | begin l a => exact begin_balanced h a
          | commit a => exact nomatch hc
          | rollback a => exact nomatch hc
          | abortAll a => exact nomatch hc
  | open_ url reply =>
      show Balanced (dbOpenLocked url reply s).1
      unfold dbOpenLocked
      split
      · exact balanced_unlock h
      cases reply with
      | failed => exact balanced_unlock h
      | pragmaFailed code =>
          exact balanced_unlock (((dbFailure_lock code _).trans (mark_lock s)).trans h)
      | foreignKeysOff => exact balanced_unlock h
      | opened disk => exact balanced_unlock h
  | close abort =>
      refine balanced_unlock ?_
      split
      · exact h
      · exact h
  | checkSchema valid reply => exact balanced_unlock h
  | ready => exact balanced_unlock h

/-! ## The invariant of the machine -/

/-- The thread owns the lock exactly while it has a level open. -/
def Owns (w : World D T) (t : T) : Prop := w.owner = some t ↔ 0 < (w.threads t).depth

theorem view_balanced (w : World D T) (t : T) : Balanced (view w t) ↔ Owns w t := by
  show (if w.owner = some t then Lock.held else .free)
    = (if (w.threads t).depth = 0 then .free else .held) ↔ _
  by_cases ho : w.owner = some t
  · by_cases hd : (w.threads t).depth = 0
    · simp [Owns, ho, hd]
    · simp [Owns, ho, hd, Nat.pos_of_ne_zero hd]
  · by_cases hd : (w.threads t).depth = 0
    · simp [Owns, ho, hd]
    · simp [Owns, ho, hd]

/-- What holds of a thread, by where it is. -/
def ThreadInv (w : World D T) (t : T) : Prop :=
  match w.pc t with
  | .idle => Owns w t
  | .waiting c => c.locks = true ∧ Owns w t
  | .inside c => c.locks = true ∧ w.owner = some t

structure Inv (w : World D T) : Prop where
  sound : w.broken = false
  thread : ∀ t, ThreadInv w t

/-- What a thread may leave behind: no misuse of the lock, and the lock only if
    no other thread owns it. -/
structure Proper (w : World D T) (t : T) (s : State D) : Prop where
  sound : s.lock ≠ .broken
  mine : s.lock = .held → w.owner = none ∨ w.owner = some t

theorem store_owner {w : World D T} {t : T} {s : State D} (h : Proper w t s) (pc : Pc D) :
    (store w t s pc).owner = some t ↔ s.lock = .held := by
  cases hl : s.lock with
  | held => simp [store, hl]
  | free =>
      by_cases ho : w.owner = some t
      · simp [store, hl, ho]
      · simp [store, hl, ho]
  | broken => exact absurd hl h.sound

theorem store_owner_other {w : World D T} {t u : T} {s : State D} (h : Proper w t s)
    (pc : Pc D) (hu : u ≠ t) : (store w t s pc).owner = some u ↔ w.owner = some u := by
  have htu : ∀ v : T, v = t → (some v = some u ↔ False) :=
    fun v hv => ⟨fun heq => hu (hv ▸ (Option.some.inj heq).symm), False.elim⟩
  cases hl : s.lock with
  | held =>
      rcases h.mine hl with ho | ho
      · simp [store, hl, ho, htu t rfl]
      · simp [store, hl, ho, htu t rfl]
  | free =>
      by_cases ho : w.owner = some t
      · simp [store, hl, ho, htu t rfl]
      · simp [store, hl, ho]
  | broken => exact absurd hl h.sound

/-- A thread's step does not touch the others. -/
theorem store_other {w : World D T} {t u : T} {s : State D} (h : Proper w t s) (pc : Pc D)
    (hu : u ≠ t) (hinv : ThreadInv w u) : ThreadInv (store w t s pc) u := by
  have howner := store_owner_other h pc hu
  have hpc : (store w t s pc).pc u = w.pc u := Function.update_of_ne hu _ _
  have hlocal : (store w t s pc).threads u = w.threads u := Function.update_of_ne hu _ _
  have howns : Owns (store w t s pc) u ↔ Owns w u := by
    rw [Owns, Owns, howner, hlocal]
  unfold ThreadInv at hinv ⊢
  rw [hpc]
  cases hp : w.pc u with
  | idle =>
      rw [hp] at hinv
      exact howns.mpr hinv
  | waiting c =>
      rw [hp] at hinv
      exact ⟨hinv.1, howns.mpr hinv.2⟩
  | inside c =>
      rw [hp] at hinv
      exact ⟨hinv.1, howner.mpr hinv.2⟩

theorem store_inv {w : World D T} (hinv : Inv w) {t : T} {s : State D} (h : Proper w t s)
    {pc : Pc D} (ht : ThreadInv (store w t s pc) t) : Inv (store w t s pc) := by
  refine ⟨?_, fun u => ?_⟩
  · show (w.broken || s.lock == .broken) = false
    rw [hinv.sound, Bool.false_or]
    exact beq_eq_false_iff_ne.mpr h.sound
  · by_cases hu : u = t
    · rw [hu]
      exact ht
    · exact store_other h pc hu (hinv.thread u)

theorem store_owns {w : World D T} {t : T} {s : State D} (h : Proper w t s) (pc : Pc D)
    (hb : Balanced s) : Owns (store w t s pc) t := by
  have hlocal : ((store w t s pc).threads t).depth = s.depth := by
    show (Function.update w.threads t _ t).depth = _
    rw [Function.update_self]
  have hl : s.lock = if s.depth = 0 then .free else .held := hb
  rw [Owns, store_owner h pc, hlocal, hl]
  by_cases hd : s.depth = 0
  · simp [hd]
  · simp [hd, Nat.pos_of_ne_zero hd]

theorem Balanced.sound {s : State D} (h : Balanced s) : s.lock ≠ .broken := by
  have hl : s.lock = if s.depth = 0 then .free else .held := h
  rw [hl]
  split <;> exact fun hc => nomatch hc

theorem view_held {w : World D T} {t : T} (h : (view w t).lock = .held) :
    w.owner = some t := by
  by_contra ho
  have hfree : (view w t).lock = .free := if_neg ho
  rw [hfree] at h
  exact nomatch h

/-- A state with the lock the thread has, or without one. -/
theorem Proper.keep {w : World D T} {t : T} {s : State D} (hb : Balanced s)
    (hl : s.lock = .held → (view w t).lock = .held) : Proper w t s :=
  ⟨hb.sound, fun h => Or.inr (view_held (hl h))⟩

theorem storeIdle {w : World D T} (hinv : Inv w) {t : T} {s : State D}
    (h : Proper w t s) (hb : Balanced s) : Inv (store w t s .idle) := by
  refine store_inv hinv h ?_
  have hpc : (store w t s .idle).pc t = .idle := Function.update_self ..
  rw [ThreadInv, hpc]
  exact store_owns h .idle hb

theorem issue_inv {w : World D T} (hinv : Inv w) {t : T} (hpc : w.pc t = .idle)
    (c : DbCall D) : Proper w t (before c (view w t)).1
      ∧ Balanced (before c (view w t)).1 := by
  have hown := hinv.thread t
  rw [ThreadInv, hpc] at hown
  have hb : Balanced (view w t) := (view_balanced w t).mpr hown
  have hb' := before_balanced hb c
  refine ⟨Proper.keep hb' fun hl => ?_, hb'⟩
  by_cases hd : (view w t).depth = 0
  · rw [← before_idle hd c]
    exact hl
  · exact hb.held hd

/-- A call is issued. -/
theorem issueStep_inv {w w' : World D T} {t : T} {c : DbCall D} (hinv : Inv w)
    (h : step w (.issue t c) = some w') : Inv w' := by
  rw [step] at h
  cases hpc : w.pc t with
  | idle =>
      rw [hpc] at h
      obtain ⟨hproper, hb⟩ := issue_inv hinv hpc c
      have hlocks := before_locks (c := c) (s := view w t)
      revert h hproper hb hlocks
      generalize before c (view w t) = r
      obtain ⟨s, rc⟩ := r
      intro h hproper hb hlocks
      cases rc with
      | some rc =>
          obtain rfl := Option.some.inj h
          exact storeIdle hinv hproper hb
      | none =>
          obtain rfl := Option.some.inj h
          refine store_inv hinv hproper ?_
          have hpc' : (store w t s (.waiting c)).pc t = .waiting c :=
            Function.update_self ..
          rw [ThreadInv, hpc']
          exact ⟨hlocks rfl, store_owns hproper _ hb⟩
  | waiting c' =>
      rw [hpc] at h
      exact nomatch h
  | inside c' =>
      rw [hpc] at h
      exact nomatch h

/-- A thread tries for the lock. -/
theorem attemptStep_inv {w w' : World D T} {t : T} {l : LockReply} (hinv : Inv w)
    (h : step w (.attempt t l) = some w') : Inv w' := by
  rw [step] at h
  cases hpc : w.pc t with
  | idle =>
      rw [hpc] at h
      exact nomatch h
  | inside c =>
      rw [hpc] at h
      exact nomatch h
  | waiting c =>
      rw [hpc] at h
      dsimp only at h
      split_ifs at h with hfree
      have hown := hinv.thread t
      rw [ThreadInv, hpc] at hown
      have hb : Balanced (view w t) := (view_balanced w t).mpr hown.2
      have hlock := dbLock_balanced hb l
      have hspec := dbLock_spec l (view w t)
      have hacq : (dbLock l (view w t)).2 = true → (view w t).depth = 0 →
          l = .acquired := by
        intro hok hd
        unfold dbLock at hok
        rw [if_neg (by omega)] at hok
        cases l with
        | acquired => rfl
        | busy => exact nomatch hok
        | gaveUp => exact nomatch hok
      revert h hlock hspec hacq
      generalize dbLock l (view w t) = r
      obtain ⟨s, ok⟩ := r
      intro h hlock hspec hacq
      cases ok with
      | true =>
          obtain rfl := Option.some.inj h
          have hheld : s.lock = .held := by
            rcases hlock with ⟨-, hl⟩ | ⟨hno, -⟩
            · exact hl
            · exact nomatch hno
          have hproper : Proper w t s := by
            refine ⟨by rw [hheld]; exact fun hc => (nomatch hc), fun _ => ?_⟩
            by_cases hd : (view w t).depth = 0
            · -- a fresh acquisition: no other thread owns the lock
              by_contra hno
              rw [not_or] at hno
              exact hfree ⟨hacq rfl hd, hd, hno⟩
            · exact Or.inr (view_held (hb.held hd))
          refine store_inv hinv hproper ?_
          have hpc' : (store w t s (.inside c)).pc t = .inside c :=
            Function.update_self ..
          rw [ThreadInv, hpc']
          exact ⟨hown.1, (store_owner hproper _).mpr hheld⟩
      | false =>
          obtain rfl := Option.some.inj h
          have hb' : Balanced s := by
            rcases hlock with ⟨hno, -⟩ | ⟨-, hl⟩
            · exact nomatch hno
            · exact hl
          refine storeIdle hinv (Proper.keep hb' fun hl => ?_) hb'
          rcases hspec with ⟨s', heq, -, -, -, hlock', -⟩ | heq
          · obtain ⟨rfl, -⟩ := Prod.mk.inj heq
            rw [← hlock']
            exact hl
          · exact nomatch (Prod.mk.inj heq).2

/-- Every event keeps the invariant. -/
theorem step_inv : Preserves (step (D := D) (T := T)) Inv := by
  intro w w' e h hinv
  cases e with
  | issue t c => exact issueStep_inv hinv h
  | attempt t l => exact attemptStep_inv hinv h
  | finish t =>
      rw [step] at h
      cases hpc : w.pc t with
      | idle =>
          rw [hpc] at h
          exact nomatch h
      | waiting c =>
          rw [hpc] at h
          exact nomatch h
      | inside c =>
          rw [hpc] at h
          obtain rfl := Option.some.inj h
          have hown := hinv.thread t
          rw [ThreadInv, hpc] at hown
          have hheld : (view w t).lock = .held := if_pos hown.2
          have hb := locked_balanced hheld hown.1
          exact storeIdle hinv (Proper.keep hb fun _ => hheld) hb
  | request t active =>
      rw [step] at h
      cases hpc : w.pc t with
      | idle =>
          rw [hpc] at h
          obtain rfl := Option.some.inj h
          have hown := hinv.thread t
          rw [ThreadInv, hpc] at hown
          have hb : Balanced (view w t) := (view_balanced w t).mpr hown
          exact storeIdle hinv (Proper.keep hb fun hl => hl) hb
      | waiting c' =>
          rw [hpc] at h
          exact nomatch h
      | inside c' =>
          rw [hpc] at h
          exact nomatch h

omit [DecidableEq T] in
theorem initial_inv (db : Db D) (isOpen : Bool) : Inv (initial (T := T) db isOpen) := by
  refine ⟨rfl, fun t => ?_⟩
  exact ⟨fun h => (nomatch h), fun h => absurd h (Nat.lt_irrefl 0)⟩

omit [DecidableEq T] in
/-- A thread with a level open owns the lock, wherever it is in a call. -/
theorem Inv.owner {w : World D T} (h : Inv w) {t : T} (hd : 0 < (w.threads t).depth) :
    w.owner = some t := by
  have ht := h.thread t
  unfold ThreadInv at ht
  cases hpc : w.pc t with
  | idle =>
      rw [hpc] at ht
      exact ht.mpr hd
  | waiting c =>
      rw [hpc] at ht
      exact ht.2.mpr hd
  | inside c =>
      rw [hpc] at ht
      exact ht.2

/-- **The database lock is held exactly during transactions.**  However the
    calls of any number of threads interleave and whatever SQLite answers: no
    lock is released by a thread that does not own it or taken by the one that
    does; a thread outside a call owns the lock if and only if it has a level
    open; and one thread at most has one. -/
theorem lock_discipline (db : Db D) (isOpen : Bool) (es : List (Event D T)) (w : World D T)
    (h : run step (initial db isOpen) es = some w) :
    w.broken = false
      ∧ (∀ t, w.pc t = .idle → (w.owner = some t ↔ 0 < (w.threads t).depth))
      ∧ (∀ t u, 0 < (w.threads t).depth → 0 < (w.threads u).depth → t = u) := by
  have hinv := run_preserves step_inv h (initial_inv db isOpen)
  refine ⟨hinv.sound, fun t hpc => ?_, fun t u ht hu => ?_⟩
  · have ht := hinv.thread t
    rw [ThreadInv, hpc] at ht
    exact ht
  · exact Option.some.inj ((hinv.owner ht).symm.trans (hinv.owner hu))

/-- One thread opens a transaction; a second one times out at the lock, and gets
    it once the first has committed. -/
def contention : List (Event Nat Bool) :=
  [.issue false (.op (.tx (.begin .acquired {}))), .attempt false .acquired, .finish false,
   .issue true .ready, .attempt true .busy, .issue true .ready,
   .issue false (.op (.tx (.commit {}))), .attempt true .acquired, .finish true]

theorem lock_discipline_contention :
    ∃ w : World Nat Bool, run step (initial ⟨0, none⟩ true) contention = some w
      ∧ w.broken = false ∧ (w.threads false).depth = 0 ∧ w.owner ≠ some false := by
  have hdepth : (run step (initial ⟨0, none⟩ true) contention).map
      (fun w => (w.threads false).depth) = some 0 := by decide +kernel
  have hidle : (run step (initial ⟨0, none⟩ true) contention).map
      (fun w => match w.pc false with | .idle => true | _ => false) = some true := by
    decide +kernel
  obtain ⟨w, hw, hd⟩ := Option.map_eq_some_iff.mp hdepth
  rw [hw] at hidle
  obtain ⟨hsound, hown, -⟩ := lock_discipline ⟨0, none⟩ true contention w hw
  refine ⟨w, hw, hsound, hd, fun ho => ?_⟩
  have hpc : w.pc false = .idle := by
    cases hp : w.pc false with
    | idle => rfl
    | waiting c => simp [hp] at hidle
    | inside c => simp [hp] at hidle
  rw [(hown false hpc)] at ho
  omega

end DbThreads

import Gargantua.DbCalls

/-! # Nested transactions are a stack of snapshots

    `db_begin`, `db_commit`, `db_rollback` and `db_abort_all` keep two numbers:
    the depth and the level of the first failure.  The reference keeps a stack:
    the database at each `db_begin` that is still open, and whether a statement
    has failed in that level.  As long as SQLite rolls nothing back by itself,
    the code refines the reference: the depth is the height of the stack, the
    database is the stack's, and the one level that is remembered is the lowest
    that has failed (`firstFailed`), so it is zero exactly when no failure is
    left to undo. -/

namespace DbNested

open CString Savepoint DbSqlite DbCalls

variable {D : Type}

/-! ## Operations and runs -/

/-- A transaction call with what the outside answers to it. -/
inductive TxCall where
  | begin (lock : LockReply) (a : ControlAnswer)
  | commit (a : ControlAnswer)
  | rollback (a : ControlAnswer)
  | abortAll (a : ControlAnswer)
  deriving Repr, DecidableEq

/-- One call of the client's interface. -/
inductive Op (D : Type) where
  | tx (c : TxCall)
  | data (c : Call D)

/-- The call and its return value; `db_abort_all` returns nothing. -/
def TxCall.run (c : TxCall) (s : State D) : State D × Int :=
  match c with
  | .begin lock a => dbBegin lock a s
  | .commit a => dbCommit a s
  | .rollback a => dbRollback a s
  | .abortAll a => (dbAbortAll a s, 0)

def Op.run (op : Op D) (s : State D) : State D × Int :=
  match op with
  | .tx c => c.run s
  | .data c => c.run s

/-- A run of calls on one thread, with their return values. -/
def runOps (s : State D) : List (Op D) → State D × List Int
  | [] => (s, [])
  | op :: ops =>
      let (s, rc) := op.run s
      let (s, rcs) := runOps s ops
      (s, rc :: rcs)

/-- A thread that has opened no transaction. -/
def start (disk : D) (active : Bool) : State D :=
  { db := ⟨disk, none⟩, isOpen := true, depth := 0, failedLevel := 0, lastId := -1,
    lock := .free, active := active, fail := none }

/-- SQLite answers the control text without rolling back by itself. -/
def AnswerKeeps (a : ControlAnswer) : Prop :=
  a.first ≠ .rolledBack ∧ a.second ≠ .rolledBack

/-- No answer to the operation is an automatic rollback. -/
def Op.keeps : Op D → Prop
  | .tx (.begin _ a) => AnswerKeeps a
  | .tx (.commit a) => AnswerKeeps a
  | .tx (.rollback a) => AnswerKeeps a
  | .tx (.abortAll a) => AnswerKeeps a
  | .data c => Call.keeps c

/-! ## The reference -/

/-- The reference: the stack of snapshots, and whether the database is open. -/
structure Ref (D : Type) where
  stack : Stack D
  isOpen : Bool
  deriving Repr, DecidableEq

/-- A transaction call on the reference.  SQLite may refuse any statement;
    between the two statements of a nested rollback that leaves the snapshot
    restored and the level open, and a `ROLLBACK` it refuses to `db_abort_all`
    costs the connection. -/
def Ref.call (r : Ref D) : TxCall → Ref D × Int
  | .begin lock a =>
      if r.stack.height ≥ MAX_DEPTH ∨ (r.stack.height = 0 ∧ lock ≠ .acquired)
          ∨ r.isOpen = false ∨ a.first ≠ .success then (r, -1)
      else ({ r with stack := r.stack.push }, 0)
  | .commit a =>
      if r.stack.height = 0 ∨ r.stack.anyFailed = true ∨ a.first ≠ .success then (r, -1)
      else ({ r with stack := r.stack.keep }, 0)
  | .rollback a =>
      if r.stack.height = 0 ∨ a.first ≠ .success then (r, -1)
      else if r.stack.height ≠ 1 ∧ a.second ≠ .success then
        ({ r with stack := r.stack.write fun _ => r.stack.top }, -1)
      else ({ r with stack := r.stack.restore }, 0)
  | .abortAll a =>
      if r.stack.height = 0 then (r, 0)
      else (⟨r.stack.abort, a.first = .success⟩, 0)

/-- One step of the reference.  A data statement writes in the current database,
    whatever it writes; a call that was refused on its arguments, or outside a
    transaction without the lock, is no statement. -/
inductive RefStep (r : Ref D) : Op D → Int → Ref D → Prop where
  | tx (c : TxCall) : RefStep r (.tx c) (r.call c).2 (r.call c).1
  | refused (c : Call D) (h : Call.ready c = true → r.stack.height = 0) :
      RefStep r (.data c) (-1) r
  | failed (c : Call D) (h : Call.ready c = true) (f : D → D) :
      RefStep r (.data c) (-1) { r with stack := (r.stack.write f).fail }
  | done (c : Call D) (h : Call.ready c = true) (f : D → D) (rc : Int) (hrc : 0 ≤ rc) :
      RefStep r (.data c) rc { r with stack := r.stack.write f }

/-- A run of the reference with the return values it shows. -/
inductive RefRun : Ref D → List (Op D) → List Int → Ref D → Prop where
  | nil (r : Ref D) : RefRun r [] [] r
  | cons {r r' r'' : Ref D} {op : Op D} {ops : List (Op D)} {rc : Int} {rcs : List Int}
      (step : RefStep r op rc r') (rest : RefRun r' ops rcs r'') :
      RefRun r (op :: ops) (rc :: rcs) r''

/-! ## The lowest failed level -/

/-- The level of the outermost failure among the open levels, innermost first;
    `0` without one. -/
def firstFailed : List (Level D) → Nat
  | [] => 0
  | l :: ls =>
      if firstFailed ls ≠ 0 then firstFailed ls
      else if l.failed then ls.length + 1 else 0

theorem firstFailed_le (ls : List (Level D)) : firstFailed ls ≤ ls.length := by
  induction ls with
  | nil => exact Nat.le_refl 0
  | cons l ls ih =>
      rw [firstFailed, List.length_cons]
      split
      · omega
      · split
        · exact Nat.le_refl _
        · omega

/-- No level is remembered exactly when none has failed. -/
theorem firstFailed_eq_zero (s : Stack D) :
    firstFailed s.levels = 0 ↔ s.anyFailed = false := by
  rw [Stack.anyFailed]
  induction s.levels with
  | nil => exact ⟨fun _ => rfl, fun _ => rfl⟩
  | cons l ls ih =>
      rw [firstFailed, List.any_cons]
      by_cases h : firstFailed ls ≠ 0
      · rw [if_pos h]
        have hls : ls.any (·.failed) = true := by
          rw [← Bool.not_eq_false]
          exact fun hf => h (ih.mpr hf)
        rw [hls, Bool.or_true]
        exact ⟨fun h0 => absurd h0 h, fun h0 => nomatch h0⟩
      · rw [if_neg h, ih.mp (not_not.mp h), Bool.or_false]
        cases l.failed with
        | true => exact ⟨fun h0 => (nomatch h0), fun h0 => (nomatch h0)⟩
        | false => exact ⟨fun _ => rfl, fun _ => rfl⟩

/-- Opening a level leaves the lowest failed one. -/
theorem firstFailed_push (s : Stack D) :
    firstFailed s.push.levels = firstFailed s.levels := by
  show (if firstFailed s.levels ≠ 0 then firstFailed s.levels
    else if false = true then s.levels.length + 1 else 0) = _
  rw [if_neg Bool.false_ne_true]
  by_cases h : firstFailed s.levels ≠ 0
  · rw [if_pos h]
  · rw [if_neg h, not_not.mp h]

/-- **Marking only the first failure is enough**: the level that `mark` leaves is
    again the lowest failed one. -/
theorem firstFailed_fail (s : Stack D) (hs : s.height ≠ 0) :
    firstFailed s.fail.levels
      = if firstFailed s.levels = 0 then s.height else firstFailed s.levels := by
  rw [Stack.fail, Stack.height]
  cases hl : s.levels with
  | nil => exact absurd (by rw [Stack.height, hl]; rfl) hs
  | cons l ls =>
      dsimp only
      rw [firstFailed, firstFailed, List.length_cons, if_pos rfl]
      by_cases h : firstFailed ls ≠ 0
      · rw [if_pos h, if_pos h, if_neg h]
      · rw [if_neg h, if_neg h]
        cases l.failed with
        | true => rw [if_pos rfl, if_neg (Nat.succ_ne_zero _)]
        | false => rw [if_neg Bool.false_ne_true, if_pos rfl]

/-- **Forgetting it at its own level is enough**: below the level that is undone
    the lowest failed level is the same. -/
theorem firstFailed_restore (s : Stack D) (hs : s.height ≠ 0) :
    firstFailed s.restore.levels
      = if firstFailed s.levels ≥ s.height then 0 else firstFailed s.levels := by
  rw [Stack.restore, Stack.height]
  cases hl : s.levels with
  | nil => exact absurd (by rw [Stack.height, hl]; rfl) hs
  | cons l ls =>
      have hle := firstFailed_le ls
      rw [List.tail_cons, firstFailed, List.length_cons]
      by_cases h : firstFailed ls ≠ 0
      · rw [if_pos h, if_neg (by omega)]
      · rw [if_neg h, not_not.mp h]
        cases l.failed with
        | true => rw [if_pos rfl, if_pos (Nat.le_refl _)]
        | false => rw [if_neg Bool.false_ne_true, ite_self]

/-! ## The simulation -/

/-- The thread is in the state the reference describes. -/
structure Matches (r : Ref D) (s : State D) : Prop where
  shows : Shows s.db r.stack
  depth : s.depth = r.stack.height
  bound : s.depth ≤ MAX_DEPTH
  failedLevel : s.failedLevel = firstFailed r.stack.levels
  isOpen : s.isOpen = r.isOpen
  opened : s.depth ≠ 0 → s.isOpen = true
  lock : s.lock = if s.depth = 0 then .free else .held

/-- The failure of the request and `g_last_id` do not matter. -/
theorem Matches.congr {r : Ref D} {s t : State D} (h : Matches r s) (hdb : t.db = s.db)
    (hopen : t.isOpen = s.isOpen) (hdepth : t.depth = s.depth)
    (hlevel : t.failedLevel = s.failedLevel) (hlock : t.lock = s.lock) : Matches r t where
  shows := by rw [hdb]; exact h.shows
  depth := hdepth.trans h.depth
  bound := by rw [hdepth]; exact h.bound
  failedLevel := hlevel.trans h.failedLevel
  isOpen := hopen.trans h.isOpen
  opened := by rw [hdepth, hopen]; exact h.opened
  lock := by rw [hdepth, hlock]; exact h.lock

/-- The database of the reference changes, the levels' count does not. -/
theorem Matches.stack {r : Ref D} {s t : State D} {st : Stack D} (h : Matches r s)
    (hshows : Shows t.db st) (hheight : st.height = r.stack.height)
    (hopen : t.isOpen = s.isOpen) (hdepth : t.depth = s.depth)
    (hlevel : t.failedLevel = firstFailed st.levels) (hlock : t.lock = s.lock) :
    Matches { r with stack := st } t where
  shows := hshows
  depth := by rw [hdepth, h.depth, ← hheight]
  bound := by rw [hdepth]; exact h.bound
  failedLevel := hlevel
  isOpen := hopen.trans h.isOpen
  opened := by rw [hdepth, hopen]; exact h.opened
  lock := by rw [hdepth, hlock]; exact h.lock

theorem Stack.height_write (f : D → D) (s : Stack D) : (s.write f).height = s.height := rfl

theorem Stack.height_fail (s : Stack D) : s.fail.height = s.height := by
  rw [Stack.fail]
  split
  · rfl
  · rename_i hl
    rw [Stack.height, Stack.height, hl]
    rfl

/-- A connection inside a transaction is not in autocommit mode. -/
theorem Matches.not_autocommit {r : Ref D} {s : State D} (h : Matches r s)
    (hd : s.depth ≠ 0) : s.db.autocommit = false := by
  rw [← Bool.not_eq_true, h.shows.autocommit, ← h.depth]
  exact hd

theorem runControl_success {cs : List (Control × Reply)} {s : State D} {db : Db D}
    (ho : s.isOpen = true) (h : s.db.controls cs = (db, true)) (code : Nat) :
    runControlStatement cs code s = ({ s with db := db }, true) := by
  rw [runControlStatement, ho, h]
  rfl

theorem runControl_failure {cs : List (Control × Reply)} {s : State D} {db : Db D}
    (ho : s.isOpen = true) (h : s.db.controls cs = (db, false)) (code : Nat) :
    runControlStatement cs code s = (dbFailure code { s with db := db }, false) := by
  rw [runControlStatement, ho, h]
  rfl

/-- One control statement that SQLite runs. -/
theorem controls_success {db db' : Db D} {c : Control}
    (h : db.exec c = some db') : db.controls [(c, .success)] = (db', true) := by
  rw [Db.controls, Db.control, h]
  rfl

theorem controls_failure (db : Db D) (c : Control)
    (rest : List (Control × Reply)) :
    db.controls ((c, .failure) :: rest) = (db, false) := rfl

/-- `db_lock` in a state of the reference: the lock is held behind it. -/
theorem Matches.lockCases {r : Ref D} {s : State D} (h : Matches r s) (l : LockReply) :
    (∃ s', dbLock l s = (s', false) ∧ s.depth = 0 ∧ l ≠ .acquired ∧ Matches r s')
      ∨ (dbLock l s = ({ s with lock := .held }, true)
          ∧ ¬ (s.depth = 0 ∧ l ≠ .acquired)) := by
  have hlock := h.lock
  by_cases hd : s.depth = 0
  · rw [if_pos hd] at hlock
    by_cases hl : l = .acquired
    · refine Or.inr ⟨?_, fun hc => hc.2 hl⟩
      unfold dbLock
      rw [if_neg (by omega), hl]
      show ({ s with lock := s.lock.acquire }, true) = _
      rw [hlock]
      rfl
    · rcases dbLock_spec l s with ⟨s', heq, h0, hframe, hdb, hlk, hlevel⟩ | heq
      · exact Or.inl ⟨s', heq, h0, hl,
          h.congr hdb hframe.isOpen hframe.depth hlevel hlk⟩
      · unfold dbLock at heq
        rw [if_neg (by omega)] at heq
        cases l with
        | acquired => exact absurd rfl hl
        | busy => exact nomatch (Prod.mk.inj heq).2
        | gaveUp => exact nomatch (Prod.mk.inj heq).2
  · rw [if_neg hd] at hlock
    refine Or.inr ⟨?_, fun hc => hd hc.1⟩
    unfold dbLock
    rw [if_pos (by omega), ← hlock]

/-- What stands behind a taken lock and changes nothing is the state before. -/
theorem Matches.unlock {r : Ref D} {s t : State D} (h : Matches r s) (hdb : t.db = s.db)
    (hopen : t.isOpen = s.isOpen) (hdepth : t.depth = s.depth)
    (hlevel : t.failedLevel = s.failedLevel) (hlock : t.lock = .held) :
    Matches r (dbUnlock t) := by
  refine h.congr ?_ ?_ ?_ ?_ ?_
  · rw [dbUnlock_db, hdb]
  · rw [dbUnlock_isOpen, hopen]
  · rw [dbUnlock_depth, hdepth]
  · rw [dbUnlock_failedLevel, hlevel]
  · rw [dbUnlock_lock, hdepth, hlock, h.lock]
    rfl

/-- A level is opened. -/
theorem Matches.push {r : Ref D} {s : State D} {db : Db D} (h : Matches r s)
    (ho : s.isOpen = true) (hb : s.depth < MAX_DEPTH) (hdb : Shows db r.stack.push) :
    Matches { r with stack := r.stack.push }
      { s with lock := .held, db := db, depth := s.depth + 1 } where
  shows := hdb
  depth := congrArg (· + 1) h.depth
  bound := hb
  failedLevel := h.failedLevel.trans (firstFailed_push r.stack).symm
  isOpen := h.isOpen
  opened _ := ho
  lock := (if_neg (Nat.succ_ne_zero _)).symm

theorem begin_sim {r : Ref D} {s : State D} (h : Matches r s) (l : LockReply)
    {a : ControlAnswer} (ha : AnswerKeeps a) :
    (dbBegin l a s).2 = (r.call (.begin l a)).2
      ∧ Matches (r.call (.begin l a)).1 (dbBegin l a s).1 := by
  rw [dbBegin, Ref.call, ← h.depth]
  by_cases hmax : s.depth ≥ MAX_DEPTH
  · rw [if_pos hmax, if_pos (Or.inl hmax)]
    exact ⟨rfl, h⟩
  rw [if_neg hmax]
  rcases h.lockCases l with ⟨s', hl, h0, hne, hm⟩ | ⟨hl, hok⟩
  · rw [hl, if_pos (Or.inr (Or.inl ⟨h0, hne⟩))]
    exact ⟨rfl, hm⟩
  rw [hl]
  dsimp only
  have hauto : ¬ (s.depth > 0 ∧ s.db.autocommit = true) := by
    rintro ⟨hd, hc⟩
    rw [h.not_autocommit (by omega)] at hc
    exact nomatch hc
  by_cases ho : s.isOpen = true
  · rw [if_neg (by rw [ho]; exact fun hc => hc.elim (fun h => nomatch h) hauto)]
    -- the statement that opens the level is one the engine can run
    have hexec : ∃ db, s.db.exec (if s.depth = 0 then Control.begin
        else .savepoint (s.depth + 1)) = some db ∧ Shows db r.stack.push := by
      by_cases hd : s.depth = 0
      · rw [if_pos hd]
        exact h.shows.begin (h.depth ▸ hd)
      · rw [if_neg hd, h.depth]
        exact h.shows.savepoint fun hc => hd (h.depth.trans hc)
    obtain ⟨db, hdb, hshows⟩ := hexec
    cases hf : a.first with
    | success =>
        have hctl := runControl_success (s := { s with lock := .held }) ho
          (controls_success hdb) a.code
        rw [hctl, if_neg (by
          rintro (hc | hc | hc | hc)
          · exact hmax hc
          · exact hok hc
          · rw [← h.isOpen, ho] at hc; exact nomatch hc
          · exact hc rfl)]
        exact ⟨rfl, h.push ho (Nat.lt_of_not_le hmax) hshows⟩
    | failure =>
        have hctl := runControl_failure (s := { s with lock := .held }) ho
          (controls_failure s.db
            (if s.depth = 0 then .begin else .savepoint (s.depth + 1)) []) a.code
        rw [hctl, if_pos (Or.inr (Or.inr (Or.inr (by exact fun hc => nomatch hc))))]
        refine ⟨rfl, h.unlock ?_ ?_ ?_ ?_ ?_⟩
        · exact dbFailure_db _ _
        · exact dbFailure_isOpen _ _
        · exact dbFailure_depth _ _
        · exact dbFailure_failedLevel _ _
        · exact dbFailure_lock _ _
    | rolledBack => exact absurd hf ha.1
  · have hfalse : s.isOpen = false := Bool.eq_false_iff.mpr ho
    rw [if_pos (Or.inl (by rw [hfalse]; rfl)),
      if_pos (Or.inr (Or.inr (Or.inl (h.isOpen ▸ hfalse))))]
    exact ⟨rfl, h.unlock rfl rfl rfl rfl rfl⟩

theorem commit_sim {r : Ref D} {s : State D} (h : Matches r s) {a : ControlAnswer}
    (ha : AnswerKeeps a) :
    (dbCommit a s).2 = (r.call (.commit a)).2
      ∧ Matches (r.call (.commit a)).1 (dbCommit a s).1 := by
  have hfailed : s.failedLevel ≠ 0 ↔ r.stack.anyFailed = true := by
    rw [h.failedLevel, ← Bool.not_eq_false, ← firstFailed_eq_zero]
  rw [dbCommit, Ref.call, ← h.depth]
  by_cases hd : s.depth = 0
  · rw [if_pos (Or.inl hd), if_pos (Or.inl hd)]
    exact ⟨rfl, h⟩
  by_cases hf : s.failedLevel ≠ 0
  · rw [if_pos (Or.inr (Or.inl hf)), if_pos (Or.inr (Or.inl (hfailed.mp hf)))]
    exact ⟨rfl, h⟩
  have ho := h.opened hd
  have hauto := h.not_autocommit hd
  rw [if_neg (by
    rintro (hc | hc | hc | hc)
    · exact hd hc
    · exact hf hc
    · rw [ho] at hc; exact nomatch hc
    · rw [hauto] at hc; exact nomatch hc)]
  have hexec : ∃ db, s.db.exec (if s.depth = 1 then Control.commit
      else .release s.depth) = some db ∧ Shows db r.stack.keep := by
    by_cases h1 : s.depth = 1
    · rw [if_pos h1]
      exact h.shows.commit (h.depth ▸ h1)
    · rw [if_neg h1, h.depth]
      exact h.shows.release (by rw [← h.depth]; omega)
  obtain ⟨db, hdb, hshows⟩ := hexec
  cases hreply : a.first with
  | success =>
      dsimp only
      rw [runControl_success ho (controls_success hdb) a.code, if_neg (by
        rintro (hc | hc | hc)
        · exact hd hc
        · exact hf (hfailed.mpr hc)
        · exact hc rfl)]
      refine ⟨rfl, ?_⟩
      have hheight : r.stack.keep.height = s.depth - 1 := by
        rw [h.depth]
        exact List.length_tail
      refine ⟨?_, ?_, ?_, ?_, ?_, ?_, ?_⟩
      · rw [dbUnlock_db]
        exact hshows
      · rw [dbUnlock_depth]
        exact hheight.symm
      · rw [dbUnlock_depth]
        exact Nat.le_trans (Nat.sub_le _ _) h.bound
      · rw [dbUnlock_failedLevel]
        show s.failedLevel = firstFailed r.stack.keep.levels
        -- no open level has failed, so neither has one of those that stay
        have hnone : r.stack.anyFailed = false := by
          rw [← Bool.not_eq_true]
          exact fun hc => hf (hfailed.mpr hc)
        rw [not_not.mp hf, eq_comm, firstFailed_eq_zero, ← Bool.not_eq_true]
        intro hany
        obtain ⟨l, hl, hlf⟩ := List.any_eq_true.mp hany
        have := List.any_eq_true.mpr ⟨l, List.mem_of_mem_tail hl, hlf⟩
        rw [← Stack.anyFailed, hnone] at this
        exact nomatch this
      · rw [dbUnlock_isOpen]
        exact h.isOpen
      · intro _
        rw [dbUnlock_isOpen]
        exact ho
      · rw [dbUnlock_lock, dbUnlock_depth]
        show (if s.depth - 1 = 0 then s.lock.release else s.lock) = _
        rw [h.lock, if_neg hd]
        rfl
  | failure =>
      dsimp only
      rw [runControl_failure ho (controls_failure s.db
          (if s.depth = 1 then .commit else .release s.depth) []) a.code,
        if_pos (Or.inr (Or.inr (by exact fun hc => nomatch hc)))]
      exact ⟨rfl, h.congr (dbFailure_db _ _) (dbFailure_isOpen _ _) (dbFailure_depth _ _)
        (dbFailure_failedLevel _ _) (dbFailure_lock _ _)⟩
  | rolledBack => exact absurd hreply ha.1

/-- Closing the innermost level undone, in the thread's variables. -/
theorem Matches.restored {r : Ref D} {s : State D} {db : Db D} (h : Matches r s)
    (hd : s.depth ≠ 0) (hdb : Shows db r.stack.restore) :
    Matches { r with stack := r.stack.restore }
      (dbUnlock { s with db := db,
                         failedLevel := if s.failedLevel ≥ s.depth then 0 else s.failedLevel,
                         depth := if db.autocommit then 0 else s.depth - 1 }) := by
  have hheight : r.stack.restore.height = s.depth - 1 := by
    rw [h.depth]
    exact List.length_tail
  -- back in autocommit mode exactly when the first level was closed
  have hdepth : (if db.autocommit = true then 0 else s.depth - 1) = s.depth - 1 := by
    by_cases hauto : db.autocommit = true
    · rw [if_pos hauto, ← hheight, hdb.autocommit.mp hauto]
    · rw [if_neg hauto]
  rw [hdepth]
  refine ⟨?_, ?_, ?_, ?_, ?_, ?_, ?_⟩
  · rw [dbUnlock_db]
    exact hdb
  · rw [dbUnlock_depth]
    exact hheight.symm
  · rw [dbUnlock_depth]
    exact Nat.le_trans (Nat.sub_le _ _) h.bound
  · rw [dbUnlock_failedLevel]
    show (if s.failedLevel ≥ s.depth then 0 else s.failedLevel)
      = firstFailed r.stack.restore.levels
    rw [firstFailed_restore r.stack (h.depth ▸ hd), h.failedLevel, h.depth]
  · rw [dbUnlock_isOpen]
    exact h.isOpen
  · intro _
    rw [dbUnlock_isOpen]
    exact h.opened hd
  · rw [dbUnlock_lock, dbUnlock_depth]
    show (if s.depth - 1 = 0 then s.lock.release else s.lock) = _
    rw [h.lock, if_neg hd]
    rfl

theorem rollback_sim {r : Ref D} {s : State D} (h : Matches r s) {a : ControlAnswer}
    (ha : AnswerKeeps a) :
    (dbRollback a s).2 = (r.call (.rollback a)).2
      ∧ Matches (r.call (.rollback a)).1 (dbRollback a s).1 := by
  rw [dbRollback, Ref.call, ← h.depth]
  by_cases hd : s.depth = 0
  · rw [if_pos (Or.inl hd), if_pos (Or.inl hd)]
    exact ⟨rfl, h⟩
  have ho := h.opened hd
  have hauto := h.not_autocommit hd
  rw [if_neg (by
    rintro (hc | hc)
    · exact hd hc
    · rw [ho] at hc; cases hc), if_pos (by rw [hauto]; rfl)]
  -- a refusal leaves everything but the request failure
  have hrefuse : ∀ rest, a.first = .failure →
      runControlStatement ((rest, a.first) :: []) a.code s
        = (dbFailure a.code s, false) := by
    intro rest hf
    rw [hf]
    exact runControl_failure ho (controls_failure s.db rest []) a.code
  have hsame : Matches r (dbFailure a.code s) :=
    h.congr (dbFailure_db _ _) (dbFailure_isOpen _ _) (dbFailure_depth _ _)
      (dbFailure_failedLevel _ _) (dbFailure_lock _ _)
  by_cases h1 : s.depth = 1
  · rw [rollbackText, if_pos h1]
    cases hf : a.first with
    | success =>
        obtain ⟨db, hdb, hshows⟩ := h.shows.rollback (h.depth ▸ hd)
        have hrest : r.stack.abort = r.stack.restore := by
          obtain ⟨l, hl⟩ := List.length_eq_one_iff.mp (h.depth ▸ h1 : r.stack.height = 1)
          rw [Stack.abort, Stack.restore, Stack.durable, Stack.top, hl]
          rfl
        rw [runControl_success ho (controls_success hdb) a.code,
          if_neg (by rintro (hc | hc); exact hd hc; exact hc rfl),
          if_neg (fun hc => hc.1 h1)]
        exact ⟨rfl, h.restored hd (hrest ▸ hshows)⟩
    | failure =>
        have hrun := hrefuse .rollback hf
        rw [hf] at hrun
        rw [hrun, if_pos (Or.inr (by exact fun hc => by cases hc))]
        exact ⟨rfl, hsame⟩
    | rolledBack => exact absurd hf ha.1
  · rw [rollbackText, if_neg h1]
    have h2 : 2 ≤ r.stack.height := by rw [← h.depth]; omega
    cases hf : a.first with
    | failure =>
        rw [runControl_failure ho (controls_failure s.db _ _) a.code,
          if_pos (Or.inr (by exact fun hc => by cases hc))]
        exact ⟨rfl, hsame⟩
    | rolledBack => exact absurd hf ha.1
    | success =>
        obtain ⟨db₁, hdb₁, hshows₁⟩ := h.shows.rollbackTo h2
        have hctl₁ : s.db.control (.rollbackTo s.depth) .success = (db₁, true) := by
          rw [Db.control, h.depth, hdb₁]
        rw [if_neg (by rintro (hc | hc); exact hd hc; exact hc rfl)]
        cases hg : a.second with
        | success =>
            obtain ⟨db₂, hdb₂, hshows₂⟩ := hshows₁.release h2
            have hctl : s.db.controls [(.rollbackTo s.depth, .success),
                (.release s.depth, .success)] = (db₂, true) := by
              rw [Db.controls, hctl₁]
              show db₁.controls [(.release s.depth, .success)] = (db₂, true)
              refine controls_success ?_
              rw [h.depth]
              exact hdb₂
            rw [runControl_success ho hctl a.code, if_neg (fun hc => hc.2 rfl)]
            exact ⟨rfl, h.restored hd hshows₂⟩
        | failure =>
            have hctl : s.db.controls [(.rollbackTo s.depth, .success),
                (.release s.depth, .failure)] = (db₁, false) := by
              rw [Db.controls, hctl₁]
              rfl
            rw [runControl_failure ho hctl a.code,
              if_pos ⟨h1, by exact fun hc => by cases hc⟩]
            refine ⟨rfl, h.stack ?_ rfl ?_ ?_ ?_ ?_⟩
            · rw [dbFailure_db]
              exact hshows₁
            · exact dbFailure_isOpen _ _
            · exact dbFailure_depth _ _
            · exact (dbFailure_failedLevel _ _).trans h.failedLevel
            · exact dbFailure_lock _ _
        | rolledBack => exact absurd hg ha.2

theorem abortAll_sim {r : Ref D} {s : State D} (h : Matches r s) {a : ControlAnswer}
    (ha : AnswerKeeps a) :
    (r.call (.abortAll a)).2 = 0
      ∧ Matches (r.call (.abortAll a)).1 (dbAbortAll a s) := by
  rw [dbAbortAll, Ref.call, ← h.depth]
  by_cases hd : s.depth = 0
  · rw [if_pos hd, if_pos hd]
    exact ⟨rfl, h⟩
  rw [if_neg hd, if_neg hd]
  refine ⟨rfl, ?_⟩
  have ho := h.opened hd
  obtain ⟨db, hdb, hshows⟩ := h.shows.rollback (h.depth ▸ hd)
  -- the transaction is over either way, by the engine or with the connection
  have hdone : ∀ t : State D, Shows t.db r.stack.abort → t.isOpen = decide (a.first = .success) →
      t.lock = .held → Matches ⟨r.stack.abort, a.first = .success⟩
        (dbUnlock { t with depth := 0, failedLevel := 0 }) := by
    intro t hshow hopen hlock
    refine ⟨?_, ?_, ?_, ?_, ?_, ?_, ?_⟩
    · rw [dbUnlock_db]
      exact hshow
    · rw [dbUnlock_depth]
      rfl
    · rw [dbUnlock_depth]
      exact Nat.zero_le _
    · rw [dbUnlock_failedLevel]
      rfl
    · rw [dbUnlock_isOpen]
      exact hopen
    · intro hc
      rw [dbUnlock_depth] at hc
      exact absurd rfl hc
    · rw [dbUnlock_lock, dbUnlock_depth]
      show t.lock.release = .free
      rw [hlock]
      rfl
  have hheld : s.lock = .held := h.lock.trans (if_neg hd)
  cases hf : a.first with
  | success =>
      rw [runControl_success ho (controls_success hdb) a.code]
      rw [hf] at hdone
      exact hdone { s with db := db } hshows (by simp [ho]) hheld
  | failure =>
      rw [runControl_failure ho (controls_failure s.db _ []) a.code]
      rw [hf] at hdone
      have hauto : (dbFailure a.code s).db.autocommit = false := by
        rw [dbFailure_db]
        exact h.not_autocommit hd
      dsimp only
      rw [hauto]
      refine hdone { dbFailure a.code s with db := (dbFailure a.code s).db.drop,
                                             isOpen := false } ?_ (by simp) ?_
      · show Shows (dbFailure a.code s).db.drop _
        rw [dbFailure_db]
        exact h.shows.drop
      · exact (dbFailure_lock _ _).trans hheld
  | rolledBack => exact absurd hf ha.1

/-- A transaction call is the reference's. -/
theorem tx_sim {r : Ref D} {s : State D} (h : Matches r s) (c : TxCall)
    (hc : (Op.tx c : Op D).keeps) :
    (c.run s).2 = (r.call c).2 ∧ Matches (r.call c).1 (c.run s).1 := by
  cases c with
  | begin l a => exact begin_sim h l hc
  | commit a => exact commit_sim h hc
  | rollback a => exact rollback_sim h hc
  | abortAll a =>
      obtain ⟨h1, h2⟩ := abortAll_sim h hc
      exact ⟨h1.symm, h2⟩

/-- The mark that a failing statement leaves is the reference's. -/
theorem Matches.mark {r : Ref D} {s : State D} (h : Matches r s) (f : D → D) :
    (mark s).failedLevel = firstFailed (r.stack.write f).fail.levels := by
  rw [mark_failedLevel]
  by_cases hd : s.depth = 0
  · have hnil : (r.stack.write f).levels = [] :=
      List.length_eq_zero_iff.mp (h.depth ▸ hd : r.stack.height = 0)
    rw [if_neg fun hc => hc.1 hd, Stack.fail, hnil, h.failedLevel]
    rfl
  · rw [firstFailed_fail (r.stack.write f) (by rw [Stack.height_write, ← h.depth]; exact hd),
      Stack.height_write, ← h.depth, h.failedLevel]
    by_cases h0 : firstFailed r.stack.levels = 0
    · rw [if_pos ⟨hd, h0⟩]
      exact (if_pos h0).symm
    · rw [if_neg fun hc => h0 hc.2]
      exact (if_neg h0).symm

/-- A data call is a statement of the reference, or no statement at all. -/
theorem data_sim {r : Ref D} {s : State D} (h : Matches r s) (c : Call D)
    (hc : Call.keeps c) :
    ∃ r', RefStep r (.data c) (c.run s).2 r' ∧ Matches r' (c.run s).1 := by
  have hrelock : (if s.depth = 0 then s.lock.acquire.release else s.lock) = s.lock := by
    rw [h.lock]
    by_cases hd : s.depth = 0
    · rw [if_pos hd, if_pos hd]
      rfl
    · rw [if_neg hd]
  rcases call_spec c s with ⟨frame, cause, lock, db, failedLevel, rc⟩ |
    ⟨ready, frame, lock, db, failedLevel, rc⟩ | ⟨ready, live, frame, lock, result⟩
  · rw [rc]
    exact ⟨r, RefStep.refused c fun hr => h.depth ▸ cause hr,
      h.congr db frame.isOpen frame.depth failedLevel lock⟩
  · rw [rc]
    refine ⟨_, RefStep.failed c ready id, h.stack ?_ (Stack.height_fail _) frame.isOpen
      frame.depth (failedLevel.trans (h.mark id)) (lock.trans hrelock)⟩
    rw [db]
    exact h.shows.fail
  · rcases result with ⟨hrc, hlevel, f, hdb⟩ | ⟨hrc, hlevel, ⟨f, hdb⟩ | ⟨hno, -⟩⟩
    · refine ⟨_, RefStep.done c ready f _ hrc, h.stack ?_ rfl frame.isOpen frame.depth
        (hlevel.trans h.failedLevel) (lock.trans hrelock)⟩
      rw [hdb]
      exact h.shows.write f
    · rw [hrc]
      refine ⟨_, RefStep.failed c ready f, h.stack ?_ (Stack.height_fail _) frame.isOpen
        frame.depth (hlevel.trans (h.mark f)) (lock.trans hrelock)⟩
      rw [hdb]
      exact (h.shows.write f).fail
    · exact absurd hc hno

/-- One call: the reference has a step with the same return value. -/
theorem op_sim {r : Ref D} {s : State D} (h : Matches r s) (op : Op D) (hop : op.keeps) :
    ∃ r', RefStep r op (op.run s).2 r' ∧ Matches r' (op.run s).1 := by
  cases op with
  | tx c =>
      obtain ⟨hrc, hm⟩ := tx_sim h c hop
      refine ⟨_, ?_, hm⟩
      show RefStep r (.tx c) (c.run s).2 _
      rw [hrc]
      exact RefStep.tx c
  | data c => exact data_sim h c hop

/-- Every run is a run of the reference. -/
theorem run_sim {ops : List (Op D)} :
    ∀ {r : Ref D} {s : State D}, Matches r s → (∀ op ∈ ops, op.keeps) →
      ∃ r', RefRun r ops (runOps s ops).2 r' ∧ Matches r' (runOps s ops).1 := by
  induction ops with
  | nil => intro r s h _; exact ⟨r, RefRun.nil r, h⟩
  | cons op ops ih =>
      intro r s h hops
      obtain ⟨hop, hrest⟩ := List.forall_mem_cons.mp hops
      obtain ⟨r₁, hstep, hm₁⟩ := op_sim h op hop
      obtain ⟨r₂, hrun, hm₂⟩ := ih hm₁ hrest
      exact ⟨r₂, RefRun.cons hstep hrun, hm₂⟩

/-- The reference of a thread that has opened no transaction. -/
def Ref.start (disk : D) : Ref D := ⟨⟨disk, []⟩, true⟩

theorem start_matches (disk : D) (active : Bool) :
    Matches (Ref.start disk) (start disk active) :=
  ⟨⟨rfl, rfl⟩, rfl, Nat.zero_le _, rfl, rfl, fun h => absurd rfl h, rfl⟩

/-- What is visible of a thread is what the reference says. -/
structure Agrees (r : Ref D) (s : State D) : Prop where
  depth : dbDepth s = r.stack.height
  bound : r.stack.height ≤ MAX_DEPTH
  content : s.db.content = r.stack.current
  durable : s.db.disk = r.stack.durable

theorem Matches.agrees {r : Ref D} {s : State D} (h : Matches r s) : Agrees r s :=
  ⟨h.depth, h.depth ▸ h.bound, h.shows.content, h.shows.disk⟩

/-- A commit with a failure left to undo is refused before SQLite is asked. -/
theorem Matches.commit_refused {r : Ref D} {s : State D} (h : Matches r s)
    (hf : r.stack.anyFailed = true) (a : ControlAnswer) : dbCommit a s = (s, -1) := by
  refine if_pos (Or.inr (Or.inl ?_))
  rw [h.failedLevel, ne_eq, firstFailed_eq_zero, hf]
  exact fun hc => nomatch hc

/-- The answers of a statement that adds to a counter, and of one that SQLite
    refuses to prepare. -/
def adds (n : Nat) : Answers Nat :=
  ⟨.acquired, 3035000, .ok (some ⟨0, fun _ => true, false, 0, [.done (· + n)], 1, 1, 0⟩) []⟩

def refuses : Answers Nat := ⟨.acquired, 3035000, .error SQLITE_ERROR⟩

end DbNested

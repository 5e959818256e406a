import Mathlib.Data.List.Basic

/-! # Transactions with savepoints — a database and its stack of snapshots

    A relational engine keeps a committed database and at most one open
    transaction: its working copy and the named savepoints set inside it, each
    with the database at the time.  `Db` is that engine with the six control
    statements of SQL.  Whether a statement succeeds is the engine's to say:
    its `Reply` may be a success, a failure that changes nothing, or a failure
    that also rolls the whole transaction back.

    What a client sees of it is simpler: a stack of snapshots (`Stack`), one for
    each level that is open.  A level is closed by keeping what was written
    since or by restoring its snapshot; only what is kept at the bottom is
    durable.  `Shows` says when an engine stands for a stack, the savepoint of
    level `n` being called `n`, and each control statement is then one operation
    of the stack. -/

namespace Savepoint

variable {D : Type}

/-- An open transaction: the working copy and its savepoints, newest first. -/
structure Txn (D : Type) where
  cur : D
  saves : List (Nat × D)
  deriving Repr, DecidableEq

/-- A database: what is committed, and the transaction in progress. -/
structure Db (D : Type) where
  disk : D
  txn : Option (Txn D)
  deriving Repr, DecidableEq

/-- The control statements. -/
inductive Control where
  | begin
  | savepoint (name : Nat)
  | release (name : Nat)
  | rollbackTo (name : Nat)
  | commit
  | rollback
  deriving Repr, DecidableEq

/-- How the engine answers a statement. -/
inductive Reply where
  | success
  | failure
  | rolledBack
  deriving Repr, DecidableEq

/-- No transaction is open: every statement commits by itself. -/
def Db.autocommit (db : Db D) : Bool := db.txn.isNone

/-- The database as its own connection reads it. -/
def Db.content (db : Db D) : D :=
  match db.txn with
  | none => db.disk
  | some t => t.cur

/-- The transaction is gone, with everything written in it. -/
def Db.drop (db : Db D) : Db D := { db with txn := none }

/-- A statement's writes: durable at once when no transaction is open. -/
def Db.write (f : D → D) (db : Db D) : Db D :=
  match db.txn with
  | none => { db with disk := f db.disk }
  | some t => { db with txn := some { t with cur := f t.cur } }

/-- The savepoints from the newest one called `name` on. -/
def fromName (name : Nat) (saves : List (Nat × D)) : List (Nat × D) :=
  saves.dropWhile fun p => p.1 != name

/-- A control statement that takes effect; `none` is one the state forbids. -/
def Db.exec (db : Db D) (c : Control) : Option (Db D) :=
  match db.txn, c with
  | none, .begin => some { db with txn := some ⟨db.disk, []⟩ }
  | some t, .savepoint name =>
      some { db with txn := some { t with saves := (name, t.cur) :: t.saves } }
  | some t, .release name =>
      match fromName name t.saves with
      | [] => none
      | _ :: saves => some { db with txn := some { t with saves := saves } }
  | some t, .rollbackTo name =>
      match fromName name t.saves with
      | [] => none
      | p :: saves => some { db with txn := some ⟨p.2, p :: saves⟩ }
  | some t, .commit => some ⟨t.cur, none⟩
  | some _, .rollback => some db.drop
  | _, _ => none

/-- A control statement with the engine's answer; the flag is its success. -/
def Db.control (db : Db D) (c : Control) (r : Reply) : Db D × Bool :=
  match r with
  | .success =>
      match db.exec c with
      | some db' => (db', true)
      | none => (db, false)
  | .failure => (db, false)
  | .rolledBack => (db.drop, false)

/-- Several control statements in one text: the first failure ends it. -/
def Db.controls (db : Db D) : List (Control × Reply) → Db D × Bool
  | [] => (db, true)
  | (c, r) :: rest =>
      match db.control c r with
      | (db', true) => db'.controls rest
      | (db', false) => (db', false)

/-! ## Each control statement by itself -/

theorem Db.exec_begin {db : Db D} (h : db.txn = none) :
    db.exec .begin = some { db with txn := some ⟨db.disk, []⟩ } := by
  obtain ⟨disk, txn⟩ := db
  cases h
  rfl

theorem Db.exec_savepoint {db : Db D} {t : Txn D} (h : db.txn = some t) (name : Nat) :
    db.exec (.savepoint name)
      = some { db with txn := some { t with saves := (name, t.cur) :: t.saves } } := by
  obtain ⟨disk, txn⟩ := db
  cases h
  rfl

theorem Db.exec_release {db : Db D} {t : Txn D} (h : db.txn = some t) {name : Nat}
    {p : Nat × D} {saves : List (Nat × D)} (hs : fromName name t.saves = p :: saves) :
    db.exec (.release name) = some { db with txn := some { t with saves := saves } } := by
  obtain ⟨disk, txn⟩ := db
  cases h
  show (match fromName name t.saves with
    | [] => none
    | _ :: saves => some _) = _
  rw [hs]

theorem Db.exec_rollbackTo {db : Db D} {t : Txn D} (h : db.txn = some t) {name : Nat}
    {p : Nat × D} {saves : List (Nat × D)} (hs : fromName name t.saves = p :: saves) :
    db.exec (.rollbackTo name) = some { db with txn := some ⟨p.2, p :: saves⟩ } := by
  obtain ⟨disk, txn⟩ := db
  cases h
  show (match fromName name t.saves with
    | [] => none
    | p :: saves => some _) = _
  rw [hs]

theorem Db.exec_commit {db : Db D} {t : Txn D} (h : db.txn = some t) :
    db.exec .commit = some ⟨t.cur, none⟩ := by
  obtain ⟨disk, txn⟩ := db
  cases h
  rfl

theorem Db.exec_rollback {db : Db D} {t : Txn D} (h : db.txn = some t) :
    db.exec .rollback = some db.drop := by
  obtain ⟨disk, txn⟩ := db
  cases h
  rfl

/-! ## Nothing but `COMMIT` reaches the disk -/

theorem Db.drop_disk (db : Db D) : db.drop.disk = db.disk := rfl

theorem Db.drop_txn (db : Db D) : db.drop.txn = none := rfl

/-- Writes inside a transaction leave the disk alone. -/
theorem Db.write_disk {db : Db D} (h : db.txn ≠ none) (f : D → D) :
    (db.write f).disk = db.disk := by
  cases ht : db.txn with
  | none => exact absurd ht h
  | some t => rw [Db.write, ht]

/-- Writes neither open nor close a transaction. -/
theorem Db.write_txn_none {db : Db D} (f : D → D) :
    (db.write f).txn = none ↔ db.txn = none := by
  cases ht : db.txn with
  | none => rw [Db.write, ht]
  | some t =>
      rw [Db.write, ht]
      exact ⟨fun h => (nomatch h), fun h => (nomatch h)⟩

/-- A control statement other than `COMMIT` leaves the disk alone. -/
theorem Db.exec_disk {db db' : Db D} {c : Control} (hc : c ≠ .commit)
    (h : db.exec c = some db') : db'.disk = db.disk := by
  unfold Db.exec at h
  split at h
  · rw [← Option.some.inj h]
  · rw [← Option.some.inj h]
  · split at h
    · exact nomatch h
    · rw [← Option.some.inj h]
  · split at h
    · exact nomatch h
    · rw [← Option.some.inj h]
  · exact absurd rfl hc
  · rw [← Option.some.inj h]
    rfl
  · exact nomatch h

/-- A refused control statement changes nothing, or ends the transaction. -/
theorem Db.control_false {db db' : Db D} {c : Control} {r : Reply}
    (h : db.control c r = (db', false)) : db' = db ∨ (r = .rolledBack ∧ db' = db.drop) := by
  cases r with
  | success =>
      rw [Db.control] at h
      split at h
      · exact nomatch (Prod.mk.inj h).2
      · exact Or.inl (Prod.mk.inj h).1.symm
  | failure => exact Or.inl (Prod.mk.inj h).1.symm
  | rolledBack => exact Or.inr ⟨rfl, (Prod.mk.inj h).1.symm⟩

/-- A control statement that succeeds takes effect. -/
theorem Db.control_true {db db' : Db D} {c : Control} {r : Reply}
    (h : db.control c r = (db', true)) : db.exec c = some db' := by
  cases r with
  | success =>
      rw [Db.control] at h
      split at h
      · rename_i db'' hexec
        rw [hexec, (Prod.mk.inj h).1]
      · exact nomatch (Prod.mk.inj h).2
  | failure => exact nomatch (Prod.mk.inj h).2
  | rolledBack => exact nomatch (Prod.mk.inj h).2

theorem Db.control_disk (db : Db D) {c : Control} (hc : c ≠ .commit) (r : Reply) :
    (db.control c r).1.disk = db.disk := by
  cases hd : db.control c r with
  | mk db' b =>
      cases b with
      | true => exact Db.exec_disk hc (Db.control_true hd)
      | false =>
          rcases Db.control_false hd with rfl | ⟨-, rfl⟩
          · rfl
          · rfl

theorem Db.controls_disk {cs : List (Control × Reply)} :
    ∀ {db : Db D}, (∀ p ∈ cs, p.1 ≠ .commit) → (db.controls cs).1.disk = db.disk := by
  induction cs with
  | nil => intro db _; rfl
  | cons p cs ih =>
      intro db h
      obtain ⟨hp, hcs⟩ := List.forall_mem_cons.mp h
      have hdisk := Db.control_disk db hp p.2
      rw [Db.controls]
      cases hd : db.control p.1 p.2 with
      | mk db' b =>
          rw [hd] at hdisk
          cases b with
          | true => exact (ih hcs).trans hdisk
          | false => exact hdisk

/-! ## The stack of snapshots -/

/-- An open level: the database when it was opened, and whether something has
    failed in it. -/
structure Level (D : Type) where
  snapshot : D
  failed : Bool
  deriving Repr, DecidableEq

/-- The database in use and the open levels, innermost first. -/
structure Stack (D : Type) where
  current : D
  levels : List (Level D)
  deriving Repr, DecidableEq

def Stack.height (s : Stack D) : Nat := s.levels.length

/-- What survives if every open level is undone. -/
def Stack.durable (s : Stack D) : D :=
  match s.levels.getLast? with
  | none => s.current
  | some l => l.snapshot

/-- Open a level. -/
def Stack.push (s : Stack D) : Stack D :=
  { s with levels := ⟨s.current, false⟩ :: s.levels }

/-- Close the innermost level, keeping what was written in it. -/
def Stack.keep (s : Stack D) : Stack D := { s with levels := s.levels.tail }

/-- The innermost level's snapshot. -/
def Stack.top (s : Stack D) : D :=
  match s.levels with
  | [] => s.current
  | l :: _ => l.snapshot

/-- Close the innermost level and restore its snapshot. -/
def Stack.restore (s : Stack D) : Stack D := ⟨s.top, s.levels.tail⟩

/-- Close every level, restoring the outermost snapshot. -/
def Stack.abort (s : Stack D) : Stack D := ⟨s.durable, []⟩

/-- Write in the innermost level. -/
def Stack.write (f : D → D) (s : Stack D) : Stack D := { s with current := f s.current }

/-- Something failed in the innermost level. -/
def Stack.fail (s : Stack D) : Stack D :=
  match s.levels with
  | [] => s
  | l :: ls => { s with levels := { l with failed := true } :: ls }

/-- Some open level has a failure that was not undone. -/
def Stack.anyFailed (s : Stack D) : Bool := s.levels.any (·.failed)

theorem Stack.durable_cons (c : D) (l l' : Level D) (ls : List (Level D)) :
    Stack.durable ⟨c, l :: l' :: ls⟩ = Stack.durable ⟨c, l' :: ls⟩ := by
  rw [Stack.durable, Stack.durable, List.getLast?_cons_cons]

/-- Only the levels decide what is durable, once there is one. -/
theorem Stack.durable_current (c c' : D) {ls : List (Level D)} (h : ls ≠ []) :
    Stack.durable ⟨c, ls⟩ = Stack.durable ⟨c', ls⟩ := by
  cases hl : ls.getLast? with
  | none => exact absurd (List.getLast?_eq_none_iff.mp hl) h
  | some l => rw [Stack.durable, Stack.durable, hl]

theorem Stack.durable_push (s : Stack D) : s.push.durable = s.durable := by
  cases hs : s.levels with
  | nil => rw [Stack.push, Stack.durable, Stack.durable, hs]; rfl
  | cons l ls =>
      rw [Stack.push, hs, Stack.durable_cons, Stack.durable, Stack.durable, hs]

theorem Stack.durable_write {s : Stack D} (h : s.levels ≠ []) (f : D → D) :
    (s.write f).durable = s.durable :=
  Stack.durable_current _ _ h

theorem Stack.durable_fail (s : Stack D) : s.fail.durable = s.durable := by
  cases hs : s.levels with
  | nil => rw [Stack.fail, hs]
  | cons l ls =>
      cases ls with
      | nil => rw [Stack.fail, hs, Stack.durable, Stack.durable, hs]; rfl
      | cons l' ls => rw [Stack.fail, hs, Stack.durable_cons, Stack.durable, Stack.durable, hs,
          List.getLast?_cons_cons]

theorem Stack.durable_restore (s : Stack D) : s.restore.durable = s.durable := by
  cases hs : s.levels with
  | nil => rw [Stack.restore, Stack.top, Stack.durable, Stack.durable, hs]; rfl
  | cons l ls =>
      cases ls with
      | nil => rw [Stack.restore, Stack.top, Stack.durable, Stack.durable, hs]; rfl
      | cons l' ls =>
          rw [Stack.restore, Stack.top, Stack.durable, Stack.durable, hs,
            List.getLast?_cons_cons]
          rfl

/-! ## An engine that stands for a stack -/

/-- The savepoints of a stack: level `n` above the first is called `n`. -/
def saves : List (Level D) → List (Nat × D)
  | l :: l' :: ls => (ls.length + 2, l.snapshot) :: saves (l' :: ls)
  | _ => []

/-- The engine is in the state the stack describes. -/
structure Shows (db : Db D) (s : Stack D) : Prop where
  disk : db.disk = s.durable
  txn : db.txn = if s.levels = [] then none else some ⟨s.current, saves s.levels⟩

theorem Shows.txn_nil {db : Db D} {s : Stack D} (h : Shows db s) (hs : s.levels = []) :
    db.txn = none := by
  rw [h.txn, if_pos hs]

theorem Shows.txn_cons {db : Db D} {s : Stack D} (h : Shows db s) (hs : s.levels ≠ []) :
    db.txn = some ⟨s.current, saves s.levels⟩ := by
  rw [h.txn, if_neg hs]

/-- The engine reads the stack's current database. -/
theorem Shows.content {db : Db D} {s : Stack D} (h : Shows db s) :
    db.content = s.current := by
  by_cases hs : s.levels = []
  · rw [Db.content, h.txn_nil hs]
    show db.disk = s.current
    rw [h.disk, Stack.durable, hs]
    rfl
  · rw [Db.content, h.txn_cons hs]

theorem Shows.autocommit {db : Db D} {s : Stack D} (h : Shows db s) :
    db.autocommit = true ↔ s.height = 0 := by
  rw [Db.autocommit, Stack.height, List.length_eq_zero_iff]
  by_cases hs : s.levels = []
  · rw [h.txn_nil hs]
    exact ⟨fun _ => hs, fun _ => rfl⟩
  · rw [h.txn_cons hs]
    exact ⟨fun h => (nomatch h), fun h => absurd h hs⟩

/-- `BEGIN` opens the first level. -/
theorem Shows.begin {db : Db D} {s : Stack D} (h : Shows db s) (hs : s.height = 0) :
    ∃ db', db.exec .begin = some db' ∧ Shows db' s.push := by
  have hnil : s.levels = [] := List.length_eq_zero_iff.mp hs
  refine ⟨_, Db.exec_begin (h.txn_nil hnil), ?_, ?_⟩
  · rw [Stack.durable_push]
    exact h.disk
  · rw [Stack.push, hnil]
    show some (⟨db.disk, []⟩ : Txn D) = some ⟨s.current, []⟩
    rw [h.disk, Stack.durable, hnil]
    rfl

/-- `SAVEPOINT n` opens level `n` above `n - 1` others. -/
theorem Shows.savepoint {db : Db D} {s : Stack D} (h : Shows db s) (hs : s.height ≠ 0) :
    ∃ db', db.exec (.savepoint (s.height + 1)) = some db' ∧ Shows db' s.push := by
  have hne : s.levels ≠ [] := fun hc => hs (List.length_eq_zero_iff.mpr hc)
  refine ⟨_, Db.exec_savepoint (h.txn_cons hne) _, ?_, ?_⟩
  · rw [Stack.durable_push]
    exact h.disk
  · cases hl : s.levels with
    | nil => exact absurd hl hne
    | cons l ls =>
        rw [Stack.push, Stack.height, hl]
        rfl

/-- The newest savepoint of two levels or more is the innermost level's. -/
theorem fromName_saves {ls : List (Level D)} {l l' : Level D} :
    fromName (ls.length + 2) (saves (l :: l' :: ls))
      = (ls.length + 2, l.snapshot) :: saves (l' :: ls) := by
  rw [saves, fromName, List.dropWhile_cons_of_neg (by simp)]

/-- A stack with two levels or more. -/
theorem two_levels {s : Stack D} (hs : 2 ≤ s.height) :
    ∃ l l' ls, s.levels = l :: l' :: ls ∧ s.height = ls.length + 2 := by
  cases hl : s.levels with
  | nil =>
      rw [Stack.height, hl, List.length_nil] at hs
      omega
  | cons l rest =>
      cases rest with
      | nil =>
          rw [Stack.height, hl, List.length_singleton] at hs
          omega
      | cons l' ls => exact ⟨l, l', ls, rfl, by rw [Stack.height, hl]; rfl⟩

/-- `RELEASE n` keeps the level `n`. -/
theorem Shows.release {db : Db D} {s : Stack D} (h : Shows db s) (hs : 2 ≤ s.height) :
    ∃ db', db.exec (.release s.height) = some db' ∧ Shows db' s.keep := by
  obtain ⟨l, l', ls, hl, hh⟩ := two_levels hs
  have htxn := h.txn_cons (by rw [hl]; exact List.cons_ne_nil _ _)
  rw [hl] at htxn
  rw [hh]
  refine ⟨_, Db.exec_release htxn fromName_saves, ?_, ?_⟩
  · rw [Stack.keep, hl]
    show db.disk = Stack.durable ⟨s.current, l' :: ls⟩
    rw [h.disk, ← Stack.durable_cons s.current l, ← hl]
  · rw [Stack.keep, hl]
    exact (if_neg (List.cons_ne_nil _ _)).symm

/-- `COMMIT` keeps the first level: what it holds is durable. -/
theorem Shows.commit {db : Db D} {s : Stack D} (h : Shows db s) (hs : s.height = 1) :
    ∃ db', db.exec .commit = some db' ∧ Shows db' s.keep := by
  obtain ⟨l, hl⟩ := List.length_eq_one_iff.mp hs
  have htxn := h.txn_cons (by rw [hl]; exact List.cons_ne_nil _ _)
  refine ⟨_, Db.exec_commit htxn, ?_, ?_⟩
  · rw [Stack.keep, hl]
    rfl
  · rw [Stack.keep, hl]
    rfl

/-- `ROLLBACK` undoes every level. -/
theorem Shows.rollback {db : Db D} {s : Stack D} (h : Shows db s) (hs : s.height ≠ 0) :
    ∃ db', db.exec .rollback = some db' ∧ Shows db' s.abort := by
  have hne : s.levels ≠ [] := fun hc => hs (List.length_eq_zero_iff.mpr hc)
  refine ⟨_, Db.exec_rollback (h.txn_cons hne), ?_, rfl⟩
  exact h.disk

/-- Dropping the connection's transaction undoes every level. -/
theorem Shows.drop {db : Db D} {s : Stack D} (h : Shows db s) : Shows db.drop s.abort :=
  ⟨h.disk, rfl⟩

/-- `ROLLBACK TO n` restores the snapshot of level `n` and leaves it open. -/
theorem Shows.rollbackTo {db : Db D} {s : Stack D} (h : Shows db s) (hs : 2 ≤ s.height) :
    ∃ db', db.exec (.rollbackTo s.height) = some db'
      ∧ Shows db' (s.write fun _ => s.top) := by
  obtain ⟨l, l', ls, hl, hh⟩ := two_levels hs
  have hne : s.levels ≠ [] := by rw [hl]; exact List.cons_ne_nil _ _
  have htxn := h.txn_cons hne
  rw [hl] at htxn
  rw [hh]
  refine ⟨_, Db.exec_rollbackTo htxn fromName_saves, ?_, ?_⟩
  · rw [Stack.durable_write hne]
    exact h.disk
  · rw [Stack.write, Stack.top, hl]
    rfl

/-- Writes of the connection are writes of the stack. -/
theorem Shows.write {db : Db D} {s : Stack D} (h : Shows db s) (f : D → D) :
    Shows (db.write f) (s.write f) := by
  by_cases hs : s.levels = []
  · have hd : db.disk = s.current := by rw [h.disk, Stack.durable, hs]; rfl
    rw [Db.write, h.txn_nil hs]
    refine ⟨?_, ?_⟩
    · rw [Stack.write, Stack.durable, hs]
      exact congrArg f hd
    · exact (if_pos hs).symm
  · refine ⟨?_, ?_⟩
    · rw [Stack.durable_write hs, Db.write_disk (by rw [h.txn_cons hs]; exact fun h => nomatch h)]
      exact h.disk
    · rw [Db.write, h.txn_cons hs]
      exact (if_neg hs).symm

/-- A failure is a mark on the stack only. -/
theorem Shows.fail {db : Db D} {s : Stack D} (h : Shows db s) : Shows db s.fail := by
  refine ⟨by rw [Stack.durable_fail]; exact h.disk, ?_⟩
  cases hs : s.levels with
  | nil => rw [Stack.fail, hs]; exact h.txn
  | cons l ls =>
      rw [h.txn_cons (by rw [hs]; exact List.cons_ne_nil _ _), Stack.fail, hs,
        if_neg (List.cons_ne_nil _ _)]
      cases ls with
      | nil => rfl
      | cons l' ls => rfl

end Savepoint

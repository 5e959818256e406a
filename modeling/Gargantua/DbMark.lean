import Gargantua.Lib.Runs
import Gargantua.DbControl
import Gargantua.DbNested

/-! # The failure mark and its transaction

    `t_failed_level` is the level of the first statement that failed, and
    `db_commit` refuses while it is set.  It belongs to an open level: every
    call that closes levels is meant to take it along.  One call does not.
    `db_rollback` clears the mark only from its own level on, and then drops to
    depth zero when SQLite has already rolled the whole transaction back; a
    mark of an outer level stays behind, where `db_abort_all` clears both. -/

namespace DbMark

open CString Savepoint DbSqlite DbCalls DbControl DbNested Runs

variable {D : Type}

/-! ## The thread and its events -/

/-- What happens to a thread: one of its calls; other threads at work, which the
    lock keeps out while a level is open; and its request starting or ending. -/
inductive Event (D : Type) where
  | call (op : Op D)
  | others (db : Db D) (isOpen : Bool)
  | request (active : Bool)

/-- One event. -/
def step (s : State D) : Event D → State D
  | .call op => (op.run s).1
  | .others db isOpen => if s.depth = 0 then { s with db := db, isOpen := isOpen } else s
  | .request active => { s with active := active, fail := none }

/-- The mark is the mark of an open level. -/
def MarkWithin (s : State D) : Prop := s.failedLevel ≤ s.depth

instance : DecidablePred (MarkWithin (D := D)) :=
  fun s => inferInstanceAs (Decidable (s.failedLevel ≤ s.depth))

/-- No statement fails: every data call reports success. -/
def NoFailure (s : State D) : Event D → Prop
  | .call (.data c) => 0 ≤ (c.run s).2
  | _ => True

/-- No mark survives its transaction, in any state of the run; so a transaction
    that starts from depth zero and in which no statement fails carries no mark
    to its `db_commit`. -/
structure MarkSound (s : State D) (es : List (Event D)) : Prop where
  within : Always step MarkWithin s es
  idle : Always step (fun s => s.depth = 0 → s.failedLevel = 0) s es
  fresh : ∀ pre body, es = pre ++ body → (after step s pre).depth = 0 →
    EveryStep step NoFailure (after step s pre) body →
    (after step s (pre ++ body)).failedLevel = 0

/-- `db_rollback` in a level whose transaction SQLite has rolled back by itself,
    while the mark is the mark of an outer level. -/
def leavesMark (s : State D) : Event D → Bool
  | .call (.tx (.rollback _)) =>
      s.isOpen && s.db.autocommit && 0 < s.failedLevel && s.failedLevel < s.depth
  | _ => false

/-! ## What each call does to the mark -/

/-- A data call sets the mark to the open level, or leaves it. -/
theorem data_mark (c : Call D) (s : State D) :
    (c.run s).1.depth = s.depth
      ∧ ((c.run s).1.failedLevel = s.failedLevel
        ∨ ((c.run s).2 = -1 ∧ (c.run s).1.failedLevel = (mark s).failedLevel)) := by
  rcases call_spec c s with ⟨frame, -, -, -, hlevel, -⟩ | ⟨-, frame, -, -, hlevel, hrc⟩ |
    ⟨-, -, frame, -, ⟨-, hlevel, -⟩ | ⟨hrc, hlevel, -⟩⟩
  · exact ⟨frame.depth, Or.inl hlevel⟩
  · exact ⟨frame.depth, Or.inr ⟨hrc, hlevel⟩⟩
  · exact ⟨frame.depth, Or.inl hlevel⟩
  · exact ⟨frame.depth, Or.inr ⟨hrc, hlevel⟩⟩

theorem dbLock_level (l : LockReply) (s : State D) :
    (dbLock l s).1.failedLevel = s.failedLevel ∧ (dbLock l s).1.depth = s.depth := by
  rcases dbLock_spec l s with ⟨s', h, -, hframe, -, -, hlevel⟩ | h
  · rw [h]
    exact ⟨hlevel, hframe.depth⟩
  · rw [h]
    exact ⟨rfl, rfl⟩

/-- A control text leaves the mark alone. -/
theorem control_level (cs : List (Control × Reply)) (code : Nat) (s : State D) :
    (runControlStatement cs code s).1.failedLevel = s.failedLevel := by
  unfold runControlStatement
  split
  · exact dbFailure_failedLevel _ s
  · split
    · rfl
    · exact dbFailure_failedLevel code _

/-- `db_begin` leaves the mark, and opens a level or none. -/
theorem begin_mark (l : LockReply) (a : ControlAnswer) (s : State D) :
    (dbBegin l a s).1.failedLevel = s.failedLevel ∧ s.depth ≤ (dbBegin l a s).1.depth := by
  have hl := dbLock_level l s
  unfold dbBegin
  split
  · exact ⟨rfl, Nat.le_refl _⟩
  cases hlock : dbLock l s with
  | mk t ok =>
      rw [hlock] at hl
      obtain ⟨hlevel, hdepth⟩ := hl
      cases ok with
      | false => exact ⟨hlevel, Nat.le_of_eq hdepth.symm⟩
      | true =>
          dsimp only
          split
          · rw [dbUnlock_failedLevel, dbUnlock_depth]
            exact ⟨hlevel, Nat.le_of_eq hdepth.symm⟩
          generalize hc : (if t.depth = 0 then Control.begin
            else .savepoint (t.depth + 1)) = c
          have hrl := control_level [(c, a.first)] a.code t
          obtain ⟨hframe, -, -⟩ := runControl_spec [(c, a.first)] a.code t
          cases hrun : runControlStatement [(c, a.first)] a.code t with
          | mk u ok =>
              rw [hrun] at hrl hframe
              have hdu : u.depth = s.depth := hframe.depth.trans hdepth
              cases ok with
              | true =>
                  refine ⟨hrl.trans hlevel, ?_⟩
                  show s.depth ≤ u.depth + 1
                  rw [hdu]
                  exact Nat.le_succ _
              | false =>
                  dsimp only
                  rw [dbUnlock_failedLevel, dbUnlock_depth]
                  exact ⟨hrl.trans hlevel, Nat.le_of_eq hdu.symm⟩

/-- `db_commit` closes a level without a mark, or changes neither. -/
theorem commit_mark (a : ControlAnswer) (s : State D) :
    (dbCommit a s).1.failedLevel = s.failedLevel
      ∧ (s.failedLevel = 0 ∨ (dbCommit a s).1.depth = s.depth) := by
  unfold dbCommit
  by_cases hc : s.depth = 0 ∨ s.failedLevel ≠ 0 ∨ !s.isOpen ∨ s.db.autocommit = true
  · rw [if_pos hc]
    exact ⟨rfl, Or.inr rfl⟩
  rw [if_neg hc]
  have hlevel : s.failedLevel = 0 := by
    rw [not_or, not_or] at hc
    exact not_not.mp hc.2.1
  dsimp only
  generalize (if s.depth = 1 then Control.commit else .release s.depth) = c
  have hrl := control_level [(c, a.first)] a.code s
  cases hrun : runControlStatement [(c, a.first)] a.code s with
  | mk t ok =>
      rw [hrun] at hrl
      cases ok with
      | true => exact ⟨(dbUnlock_failedLevel _).trans hrl, Or.inl hlevel⟩
      | false => exact ⟨hrl, Or.inl hlevel⟩

theorem abortAll_mark {s : State D} (h : MarkWithin s) (a : ControlAnswer) :
    MarkWithin (dbAbortAll a s) := by
  unfold dbAbortAll
  by_cases hd : s.depth = 0
  · rw [if_pos hd]
    exact h
  rw [if_neg hd]
  dsimp only
  rw [MarkWithin, dbUnlock_failedLevel, dbUnlock_depth]

/-- A text that undoes an inner level leaves the transaction open. -/
theorem rollbackText_txn {db db' : Db D} {depth : Nat} {a : ControlAnswer} (hd : depth ≠ 1)
    (h : db.controls (rollbackText depth a) = (db', true)) : db'.autocommit = false := by
  rw [rollbackText, if_neg hd, Db.controls] at h
  cases hc : db.control (.rollbackTo depth) a.first with
  | mk db₁ ok =>
      rw [hc] at h
      cases ok with
      | false => cases (Prod.mk.inj h).2
      | true =>
          have hexec := controls_one_true h
          cases ht : db₁.txn with
          | none =>
              obtain ⟨disk, txn⟩ := db₁
              cases ht
              cases hexec
          | some t =>
              cases hs : fromName depth t.saves with
              | nil =>
                  obtain ⟨disk, txn⟩ := db₁
                  cases ht
                  have hnone : Db.exec ⟨disk, some t⟩ (.release depth) = none := by
                    dsimp only [Db.exec, Option.map_some]
                    rw [hs]
                  cases hnone.symm.trans hexec
              | cons p saves =>
                  rw [Db.exec_release ht hs] at hexec
                  rw [← Option.some.inj hexec]
                  rfl

/-- The end of `db_rollback` keeps the mark inside the levels that are left,
    unless it drops to depth zero under the mark of an outer level. -/
theorem rolledBack_mark {t : State D} (h : MarkWithin t) :
    MarkWithin (rolledBack t)
      ↔ ¬ (t.db.autocommit = true ∧ 0 < t.failedLevel ∧ t.failedLevel < t.depth) := by
  have hm : t.failedLevel ≤ t.depth := h
  have hlevel : (rolledBack t).failedLevel
      = if t.failedLevel ≥ t.depth then 0 else t.failedLevel := dbUnlock_failedLevel _
  have hdepth : (rolledBack t).depth = if t.db.autocommit then 0 else t.depth - 1 :=
    dbUnlock_depth _
  rw [MarkWithin, hlevel, hdepth]
  by_cases hauto : t.db.autocommit = true
  · rw [if_pos hauto, and_iff_right hauto]
    split <;> omega
  · rw [if_neg hauto]
    refine iff_of_true ?_ fun hc => hauto hc.1
    split <;> omega

theorem rollback_mark {s : State D} (h : MarkWithin s) (a : ControlAnswer) :
    MarkWithin (dbRollback a s).1 ↔ leavesMark s (.call (.tx (.rollback a))) = false := by
  rw [leavesMark]
  unfold dbRollback
  by_cases hc : s.depth = 0 ∨ !s.isOpen
  · -- refused: the depth is zero or the connection is gone
    rw [if_pos hc]
    refine iff_of_true h ?_
    rcases hc with hd | ho
    · rw [hd]
      simp
    · rw [(Bool.not_eq_true' s.isOpen).mp ho]
      rfl
  rw [if_neg hc]
  rw [not_or] at hc
  obtain ⟨hd, ho⟩ := hc
  have hopen : s.isOpen = true := by simpa using ho
  by_cases hauto : s.db.autocommit = true
  · have hstay : ¬ (!s.db.autocommit) = true := by rw [hauto]; exact Bool.false_ne_true
    rw [if_neg hstay]
    refine (rolledBack_mark h).trans ?_
    simp [hopen, hauto]
  · rw [Bool.not_eq_true] at hauto
    have hrun : (!s.db.autocommit) = true := by rw [hauto]; rfl
    rw [if_pos hrun]
    refine iff_of_true ?_ (by rw [hauto, Bool.and_false]; rfl)
    obtain ⟨hframe, hok, -⟩ := runControl_spec (rollbackText s.depth a) a.code s
    have hlevel := control_level (rollbackText s.depth a) a.code s
    cases hr : runControlStatement (rollbackText s.depth a) a.code s with
    | mk t ok =>
        rw [hr] at hframe hok hlevel
        have ht : MarkWithin t := by
          show t.failedLevel ≤ t.depth
          rw [hlevel, hframe.depth]
          exact h
        cases ok with
        | false => exact ht
        | true =>
            refine (rolledBack_mark ht).mpr ?_
            rintro ⟨ha, h0, hlt⟩
            rw [hframe.depth] at hlt
            -- only the outermost level can end in autocommit, and no level is below it
            by_cases h1 : s.depth = 1
            · omega
            · rw [rollbackText_txn h1 (hok rfl)] at ha
              exact nomatch ha

/-- `db_rollback` clears the mark or leaves it. -/
theorem rollback_level (a : ControlAnswer) (s : State D) :
    (dbRollback a s).1.failedLevel = s.failedLevel ∨ (dbRollback a s).1.failedLevel = 0 := by
  have hdone : ∀ t : State D, t.failedLevel = s.failedLevel →
      (rolledBack t).failedLevel = s.failedLevel ∨ (rolledBack t).failedLevel = 0 := by
    intro t ht
    have hlevel : (rolledBack t).failedLevel
        = if t.failedLevel ≥ t.depth then 0 else t.failedLevel := dbUnlock_failedLevel _
    rw [hlevel]
    split
    · exact Or.inr rfl
    · exact Or.inl ht
  unfold dbRollback
  by_cases hc : s.depth = 0 ∨ !s.isOpen
  · rw [if_pos hc]
    exact Or.inl rfl
  rw [if_neg hc]
  by_cases hauto : (!s.db.autocommit) = true
  · rw [if_pos hauto]
    have hlevel := control_level (rollbackText s.depth a) a.code s
    cases hr : runControlStatement (rollbackText s.depth a) a.code s with
    | mk t ok =>
        rw [hr] at hlevel
        cases ok with
        | false => exact Or.inl hlevel
        | true => exact hdone t hlevel
  · rw [if_neg hauto]
    exact hdone s rfl

/-- So does `db_abort_all`. -/
theorem abortAll_level (a : ControlAnswer) (s : State D) :
    (dbAbortAll a s).failedLevel = s.failedLevel ∨ (dbAbortAll a s).failedLevel = 0 := by
  unfold dbAbortAll
  split
  · exact Or.inl rfl
  · exact Or.inr (dbUnlock_failedLevel _)

/-! ## Steps and runs -/

/-- One event keeps the mark inside the open levels unless it is the rollback
    that leaves one behind. -/
theorem step_mark (s : State D) (e : Event D) (h : MarkWithin s) :
    MarkWithin (step s e) ↔ leavesMark s e = false := by
  have hm : s.failedLevel ≤ s.depth := h
  cases e with
  | others db isOpen =>
      refine iff_of_true ?_ rfl
      rw [step]
      split
      · exact h
      · exact h
  | request active => exact iff_of_true h rfl
  | call op =>
      cases op with
      | data c =>
          refine iff_of_true ?_ rfl
          obtain ⟨hdepth, hlevel⟩ := data_mark c s
          show (c.run s).1.failedLevel ≤ (c.run s).1.depth
          rw [hdepth]
          rcases hlevel with hlevel | ⟨-, hlevel⟩
          · rw [hlevel]
            exact hm
          · rw [hlevel, mark_failedLevel]
            split
            · exact Nat.le_refl _
            · exact hm
      | tx c =>
          cases c with
          | begin l a =>
              refine iff_of_true ?_ rfl
              obtain ⟨hlevel, hdepth⟩ := begin_mark l a s
              show (dbBegin l a s).1.failedLevel ≤ _
              rw [hlevel]
              exact Nat.le_trans hm hdepth
          | commit a =>
              refine iff_of_true ?_ rfl
              obtain ⟨hlevel, h0 | hdepth⟩ := commit_mark a s
              · show (dbCommit a s).1.failedLevel ≤ _
                rw [hlevel, h0]
                exact Nat.zero_le _
              · show (dbCommit a s).1.failedLevel ≤ (dbCommit a s).1.depth
                rw [hlevel, hdepth]
                exact hm
          | rollback a => exact rollback_mark h a
          | abortAll a => exact iff_of_true (abortAll_mark h a) rfl

/-- Without a failing statement no event sets the mark. -/
theorem step_level_zero {s : State D} {e : Event D} (h : s.failedLevel = 0)
    (hno : NoFailure s e) : (step s e).failedLevel = 0 := by
  cases e with
  | others db isOpen =>
      rw [step]
      split
      · exact h
      · exact h
  | request active => exact h
  | call op =>
      cases op with
      | data c =>
          rcases (data_mark c s).2 with hlevel | ⟨hrc, -⟩
          · exact hlevel.trans h
          · have hpos : 0 ≤ (c.run s).2 := hno
            rw [hrc] at hpos
            exact absurd hpos (by decide)
      | tx c =>
          have hkeep : ∀ n : Nat, n = s.failedLevel ∨ n = 0 → n = 0 :=
            fun n hn => hn.elim (fun h' => h'.trans h) id
          cases c with
          | begin l a => exact (begin_mark l a s).1.trans h
          | commit a => exact (commit_mark a s).1.trans h
          | rollback a => exact hkeep _ (rollback_level a s)
          | abortAll a => exact hkeep _ (abortAll_level a s)

theorem body_level_zero {body : List (Event D)} :
    ∀ {s : State D}, s.failedLevel = 0 → EveryStep step NoFailure s body →
      (after step s body).failedLevel = 0 := by
  induction body with
  | nil => exact fun h _ => h
  | cons e body ih => exact fun h hno => ih (step_level_zero h hno.1) hno.2

theorem start_within (disk : D) (active : Bool) : MarkWithin (start disk active) :=
  Nat.le_refl 0

/-- **A mark is left behind by one kind of step only.**  In a run of a thread
    no mark survives its transaction if and only if no `db_rollback` of the run
    finds the transaction already rolled back by SQLite at a level above the
    one that is marked. -/
theorem mark_sound_iff (disk : D) (active : Bool) (es : List (Event D)) :
    MarkSound (start disk active) es
      ↔ EveryStep step (fun s e => leavesMark s e = false) (start disk active) es := by
  have hiff : Always step MarkWithin (start disk active) es
      ↔ EveryStep step (fun s e => leavesMark s e = false) (start disk active) es :=
    always_iff_everyStep (fun s e h => step_mark s e h) (start_within disk active)
  constructor
  · exact fun h => hiff.mp h.within
  · intro h
    have hwithin := hiff.mpr h
    have hzero : ∀ s : State D, MarkWithin s → s.depth = 0 → s.failedLevel = 0 :=
      fun s hs hd => Nat.le_zero.mp (hd ▸ hs)
    refine ⟨hwithin, hwithin.imp hzero, ?_⟩
    rintro pre body rfl hd hno
    rw [after, List.foldl_append]
    exact body_level_zero (hzero _ (hwithin.append).head hd) hno

/-- A statement that fails with an automatic rollback. -/
def dropped : Answers Nat :=
  ⟨.acquired, 3035000,
    .ok (some ⟨0, fun _ => true, false, 0, [.rolledBack SQLITE_FULL], 0, 0, 0⟩) []⟩

/-- The run that leaves a mark: a failure in the outer level, an automatic
    rollback in the inner one, and the rollback of the inner one.  The next
    transaction, without a failure of its own, is refused. -/
def markLeft : List (Event Nat) :=
  [.call (.tx (.begin .acquired {})),
   .call (.data (.execute ⟨some (lit "UPDATE t SET n = 1"), none, 0⟩ refuses)),
   .call (.tx (.begin .acquired {})),
   .call (.data (.execute ⟨some (lit "UPDATE t SET n = 1"), none, 0⟩ dropped)),
   .call (.tx (.rollback {}))]

theorem mark_survives :
    ¬ MarkSound (start 0 false) markLeft
      ∧ (after step (start 0 false) markLeft).depth = 0
      ∧ (let fresh := after step (start 0 false)
          (markLeft ++ [.call (.tx (.begin .acquired {})),
            .call (.data (.execute ⟨some (lit "UPDATE t SET n = 1"), none, 0⟩ (adds 1)))])
        fresh.depth = 1 ∧ (dbCommit {} fresh).2 = -1) := by
  refine ⟨fun h => absurd h.within ?_, ?_⟩
  · decide +kernel
  · decide +kernel

end DbMark

import Gargantua.DbCalls

/-! # What a transaction call can do

    `db_begin`, `db_commit`, `db_rollback` and `db_abort_all`, whatever SQLite
    answers: a success, a refusal, or a refusal that also rolls the transaction
    back.  One record for each says how the depth moves and that only the
    outermost `COMMIT` touches the disk. -/

namespace DbControl

open CString Savepoint DbSqlite DbCalls

variable {D : Type}

/-! ## Control texts -/

/-- Outside a transaction of the client SQLite has none open either. -/
def Quiet (s : State D) : Prop := s.depth = 0 → s.db.txn = none

/-- A control text changes the database and the request failure. -/
theorem runControl_spec (cs : List (Control × Reply)) (code : Nat) (s : State D) :
    Frame s (runControlStatement cs code s).1
      ∧ ((runControlStatement cs code s).2 = true →
          s.db.controls cs = ((runControlStatement cs code s).1.db, true))
      ∧ ((runControlStatement cs code s).1.db = s.db
        ∨ (runControlStatement cs code s).1.db = (s.db.controls cs).1) := by
  unfold runControlStatement
  split
  · exact ⟨frame_failure _ s, fun h => (nomatch h), Or.inl (dbFailure_db _ s)⟩
  · cases hc : s.db.controls cs with
    | mk db ok =>
        cases ok with
        | true => exact ⟨frame_moved s db, fun _ => rfl, Or.inr rfl⟩
        | false =>
            exact ⟨(frame_moved s db).trans (frame_failure code _), fun h => (nomatch h),
              Or.inr (dbFailure_db code _)⟩

/-- Without a `COMMIT` in it, a control text leaves the disk alone. -/
theorem runControl_disk (cs : List (Control × Reply)) (h : ∀ p ∈ cs, p.1 ≠ .commit)
    (code : Nat) (s : State D) :
    (runControlStatement cs code s).1.db.disk = s.db.disk := by
  rcases (runControl_spec cs code s).2.2 with hdb | hdb
  · rw [hdb]
  · rw [hdb]
    exact Db.controls_disk h

/-- One control statement, refused. -/
theorem controls_one_false {db db' : Db D} {c : Control} {r : Reply}
    (h : db.controls [(c, r)] = (db', false)) : db.control c r = (db', false) := by
  rw [Db.controls] at h
  cases hc : db.control c r with
  | mk db₁ ok =>
      rw [hc] at h
      cases ok with
      | true => cases (Prod.mk.inj h).2
      | false => rw [(Prod.mk.inj h).1]

/-- One control statement, run. -/
theorem controls_one_true {db db' : Db D} {c : Control} {r : Reply}
    (h : db.controls [(c, r)] = (db', true)) : db.exec c = some db' := by
  rw [Db.controls] at h
  cases hc : db.control c r with
  | mk db₁ ok =>
      rw [hc] at h
      cases ok with
      | true =>
          rw [Db.control_true hc]
          exact congrArg some (Prod.mk.inj h).1
      | false => cases (Prod.mk.inj h).2

/-- One control statement that is refused leaves the disk alone, `COMMIT` too. -/
theorem runControl_refused {c : Control} {r : Reply} {code : Nat} {s t : State D}
    (h : runControlStatement [(c, r)] code s = (t, false)) :
    t.db = s.db ∨ t.db = s.db.drop := by
  unfold runControlStatement at h
  split at h
  · refine Or.inl ?_
    rw [← (Prod.mk.inj h).1]
    exact dbFailure_db _ s
  · cases hc : s.db.controls [(c, r)] with
    | mk db ok =>
        rw [hc] at h
        cases ok with
        | true => exact nomatch (Prod.mk.inj h).2
        | false =>
            have hdb : t.db = db := by
              rw [← (Prod.mk.inj h).1]
              exact dbFailure_db _ _
            rcases Db.control_false (controls_one_false hc) with hd | ⟨-, hd⟩
            · exact Or.inl (hdb.trans hd)
            · exact Or.inr (hdb.trans hd)

theorem runControl_refused_txn {c : Control} {r : Reply} {code : Nat} {s t : State D}
    (h : runControlStatement [(c, r)] code s = (t, false)) (hq : s.db.txn = none) :
    t.db.txn = none := by
  rcases runControl_refused h with hdb | hdb
  · rw [hdb]
    exact hq
  · rw [hdb]
    rfl

theorem runControl_refused_disk {c : Control} {r : Reply} {code : Nat} {s t : State D}
    (h : runControlStatement [(c, r)] code s = (t, false)) : t.db.disk = s.db.disk := by
  rcases runControl_refused h with hdb | hdb
  · rw [hdb]
  · rw [hdb]
    rfl

/-- `ROLLBACK` ends the transaction. -/
theorem exec_rollback_txn {db db' : Db D} (h : db.exec .rollback = some db') :
    db'.txn = none := by
  cases ht : db.txn with
  | none =>
      obtain ⟨disk, txn⟩ := db
      cases ht
      exact nomatch h
  | some t =>
      rw [Db.exec_rollback ht] at h
      rw [← Option.some.inj h]
      rfl

/-- `COMMIT` ends the transaction. -/
theorem exec_commit_txn {db db' : Db D} (h : db.exec .commit = some db') :
    db'.txn = none := by
  cases ht : db.txn with
  | none =>
      obtain ⟨disk, txn⟩ := db
      cases ht
      exact nomatch h
  | some t =>
      rw [Db.exec_commit ht] at h
      rw [← Option.some.inj h]

theorem autocommit_iff (db : Db D) : db.autocommit = true ↔ db.txn = none :=
  Option.isNone_iff_eq_none

/-- What no transaction call undoes: the handler runs or not, and a recorded
    failure stays. -/
structure Kept (s s' : State D) : Prop where
  active : s'.active = s.active
  fail : s.fail ≠ none → s'.fail ≠ none

theorem Kept.refl (s : State D) : Kept s s := ⟨rfl, id⟩

theorem Kept.trans {a b c : State D} (h : Kept a b) (h' : Kept b c) : Kept a c :=
  ⟨h'.active.trans h.active, fun hf => h'.fail (h.fail hf)⟩

/-- Only the two fields matter. -/
theorem Kept.of {s t u : State D} (h : Kept s t) (hactive : u.active = t.active)
    (hfail : u.fail = t.fail) : Kept s u :=
  ⟨hactive.trans h.active, fun hf => hfail.symm ▸ h.fail hf⟩

theorem Frame.kept {s s' : State D} (h : Frame s s') : Kept s s' :=
  ⟨h.active, fun hf => by rw [h.fail hf]; exact hf⟩

/-- `Quiet` survives the unlock. -/
theorem Quiet.unlock {s : State D} (h : Quiet s) : Quiet (dbUnlock s) := by
  intro hd
  rw [dbUnlock_db]
  exact h ((dbUnlock_depth s).symm.trans hd)

/-- `db_abort_all` ends in depth 0 without a transaction, the disk as it was. -/
structure AbortSpec (s s' : State D) : Prop where
  kept : Kept s s'
  depth : s'.depth = 0
  txn : s'.db.txn = none
  disk : s'.db.disk = s.db.disk

theorem dbAbortAll_spec (a : ControlAnswer) {s : State D} (hq : Quiet s) :
    AbortSpec s (dbAbortAll a s) := by
  unfold dbAbortAll
  by_cases hd : s.depth = 0
  · rw [if_pos hd]
    exact ⟨Kept.refl s, hd, hq hd, rfl⟩
  rw [if_neg hd]
  obtain ⟨hframe, hok, -⟩ := runControl_spec [(.rollback, a.first)] a.code s
  have hdisk := runControl_disk [(.rollback, a.first)]
    (fun p hp => by rw [List.mem_singleton.mp hp]; exact fun h => nomatch h) a.code s
  cases hr : runControlStatement [(.rollback, a.first)] a.code s with
  | mk t ok =>
      rw [hr] at hframe hok hdisk
      have hunlock : ∀ u : State D, Kept s u → u.depth = 0 → u.db.txn = none →
          u.db.disk = s.db.disk → AbortSpec s (dbUnlock u) := by
        intro u h1 h2 h3 h4
        refine ⟨h1.trans (Frame.kept (frame_unlock u)), ?_, ?_, ?_⟩
        · rw [dbUnlock_depth, h2]
        · rw [dbUnlock_db, h3]
        · rw [dbUnlock_db, h4]
      dsimp only
      by_cases hc : (!ok && !t.db.autocommit) = true
      · -- the connection is closed under the transaction
        rw [if_pos hc]
        exact hunlock _ ((Frame.kept hframe).of rfl rfl) rfl rfl hdisk
      · rw [if_neg hc]
        refine hunlock _ ((Frame.kept hframe).of rfl rfl) rfl ?_ hdisk
        cases ok with
        | true => exact exec_rollback_txn (controls_one_true (hok rfl))
        | false =>
            refine (autocommit_iff _).mp ?_
            simpa using hc

/-- `db_begin` goes one level deeper or stays, and leaves the disk alone. -/
structure BeginSpec (s : State D) (r : State D × Int) : Prop where
  kept : Kept s r.1
  quiet : Quiet r.1
  disk : r.1.db.disk = s.db.disk
  result : (r.2 = 0 ∧ r.1.depth = s.depth + 1) ∨ (r.2 = -1 ∧ r.1.depth = s.depth)

theorem dbBegin_spec (l : LockReply) (a : ControlAnswer) {s : State D} (hq : Quiet s) :
    BeginSpec s (dbBegin l a s) := by
  unfold dbBegin
  split
  · exact ⟨Kept.refl s, hq, rfl, Or.inr ⟨rfl, rfl⟩⟩
  -- a refusal unlocks a state of the old depth and disk
  have hrefuse : ∀ u : State D, Kept s u → u.depth = s.depth →
      u.db.disk = s.db.disk → Quiet u → BeginSpec s (dbUnlock u, -1) := by
    intro u h1 h2 h3 h4
    refine ⟨h1.trans (Frame.kept (frame_unlock u)), h4.unlock, ?_,
      Or.inr ⟨rfl, (dbUnlock_depth u).trans h2⟩⟩
    rw [dbUnlock_db, h3]
  have hl : Frame s (dbLock l s).1 ∧ (dbLock l s).1.db = s.db := by
    rcases dbLock_spec l s with ⟨s', h, -, hframe, hdb, -⟩ | h
    · rw [h]
      exact ⟨hframe, hdb⟩
    · rw [h]
      exact ⟨⟨rfl, rfl, rfl, fun _ => rfl⟩, rfl⟩
  cases hlock : dbLock l s with
  | mk s₁ ok =>
      rw [hlock] at hl
      obtain ⟨hl, hdb⟩ := hl
      have hq₁ : Quiet s₁ := fun h => hdb.symm ▸ hq (hl.depth.symm.trans h)
      have hdisk₁ : s₁.db.disk = s.db.disk := congrArg Db.disk hdb
      cases ok with
      | false => exact ⟨Frame.kept hl, hq₁, hdisk₁, Or.inr ⟨rfl, hl.depth⟩⟩
      | true =>
          dsimp only
          split
          · exact hrefuse s₁ (Frame.kept hl) hl.depth hdisk₁ hq₁
          generalize hc : (if s₁.depth = 0 then Control.begin
            else .savepoint (s₁.depth + 1)) = c
          have hne : c ≠ .commit := by
            rw [← hc]
            split <;> exact fun h => nomatch h
          obtain ⟨hr, -, -⟩ := runControl_spec [(c, a.first)] a.code s₁
          have hdisk := runControl_disk [(c, a.first)]
            (fun p hp => by rw [List.mem_singleton.mp hp]; exact hne) a.code s₁
          cases hrun : runControlStatement [(c, a.first)] a.code s₁ with
          | mk s₂ ok =>
              rw [hrun] at hr hdisk
              have hdepth : s₂.depth = s.depth := hr.depth.trans hl.depth
              cases ok with
              | true =>
                  exact ⟨(Frame.kept (hl.trans hr)).of rfl rfl, fun h => absurd h (Nat.succ_ne_zero _),
                    hdisk.trans hdisk₁, Or.inl ⟨rfl, congrArg (· + 1) hdepth⟩⟩
              | false =>
                  exact hrefuse s₂ (Frame.kept (hl.trans hr)) hdepth (hdisk.trans hdisk₁)
                    fun h => runControl_refused_txn hrun (hq₁ (hr.depth.symm.trans h))

/-- `db_commit`: the outermost one closes the transaction; an inner one, and one
    that is refused, leave the disk alone. -/
structure CommitSpec (s : State D) (r : State D × Int) : Prop where
  kept : Kept s r.1
  quiet : Quiet r.1
  result : (r.2 = 0 ∧ s.depth = 1 ∧ r.1.depth = 0)
    ∨ (r.2 = 0 ∧ 2 ≤ s.depth ∧ r.1.depth = s.depth - 1 ∧ r.1.db.disk = s.db.disk)
    ∨ (r.2 = -1 ∧ r.1.depth = s.depth ∧ r.1.db.disk = s.db.disk)

theorem dbCommit_spec (a : ControlAnswer) {s : State D} (hq : Quiet s) :
    CommitSpec s (dbCommit a s) := by
  unfold dbCommit
  by_cases hc : s.depth = 0 ∨ s.failedLevel ≠ 0 ∨ !s.isOpen ∨ s.db.autocommit = true
  · rw [if_pos hc]
    exact ⟨Kept.refl s, hq, Or.inr (Or.inr ⟨rfl, rfl, rfl⟩)⟩
  rw [if_neg hc]
  rw [not_or] at hc
  have hd := hc.1
  dsimp only
  obtain ⟨hr, hok, -⟩ := runControl_spec
    [(if s.depth = 1 then Control.commit else .release s.depth, a.first)] a.code s
  cases hrun : runControlStatement
      [(if s.depth = 1 then Control.commit else .release s.depth, a.first)] a.code s with
  | mk t ok =>
      rw [hrun] at hr hok
      cases ok with
      | true =>
          have hexec := controls_one_true (hok rfl)
          have hkept : Kept s (dbUnlock { t with depth := t.depth - 1 }) :=
            (Frame.kept hr).of (dbUnlock_active _) (dbUnlock_fail _)
          have hdepth : (dbUnlock { t with depth := t.depth - 1 }).depth = s.depth - 1 := by
            rw [dbUnlock_depth]
            exact congrArg (· - 1) hr.depth
          by_cases h1 : s.depth = 1
          · rw [if_pos h1] at hexec
            refine ⟨hkept, fun _ => ?_, Or.inl ⟨rfl, h1, by rw [hdepth, h1]⟩⟩
            rw [dbUnlock_db]
            exact exec_commit_txn hexec
          · rw [if_neg h1] at hexec
            refine ⟨hkept, fun h => ?_, Or.inr (Or.inl ⟨rfl, by omega, hdepth, ?_⟩)⟩
            · rw [hdepth] at h
              omega
            · rw [dbUnlock_db]
              exact Db.exec_disk (by exact fun h => nomatch h) hexec
      | false =>
          exact ⟨Frame.kept hr, fun h => absurd (hr.depth.symm.trans h) hd,
            Or.inr (Or.inr ⟨rfl, hr.depth, runControl_refused_disk hrun⟩)⟩

/-- `db_rollback` leaves the disk alone; when it succeeds it closes one level, or
    all of them. -/
structure RollbackSpec (s : State D) (r : State D × Int) : Prop where
  kept : Kept s r.1
  quiet : Quiet r.1
  disk : r.1.db.disk = s.db.disk
  result : (r.2 = 0 ∧ (r.1.depth = s.depth - 1 ∨ r.1.depth = 0))
    ∨ (r.2 = -1 ∧ r.1.depth = s.depth)

/-- The end of `db_rollback`, once the text has run or there was none to run. -/
def rolledBack (t : State D) : State D :=
  dbUnlock { t with failedLevel := if t.failedLevel ≥ t.depth then 0 else t.failedLevel,
                    depth := if t.db.autocommit then 0 else t.depth - 1 }

theorem rolledBack_spec {s t : State D} (hframe : Frame s t)
    (hdisk : t.db.disk = s.db.disk) (hlast : s.depth = 1 → t.db.txn = none)
    (hd : s.depth ≠ 0) : RollbackSpec s (rolledBack t, 0) := by
  have hkept : Kept s (rolledBack t) :=
    (Frame.kept hframe).of (dbUnlock_active _) (dbUnlock_fail _)
  have hdb : (rolledBack t).db = t.db := dbUnlock_db _
  have hdepth : (rolledBack t).depth = if t.db.autocommit then 0 else t.depth - 1 :=
    dbUnlock_depth _
  by_cases hauto : t.db.autocommit = true
  · rw [if_pos hauto] at hdepth
    refine ⟨hkept, fun _ => ?_, by rw [hdb, hdisk], Or.inl ⟨rfl, Or.inr hdepth⟩⟩
    rw [hdb]
    exact (autocommit_iff _).mp hauto
  · rw [if_neg hauto, hframe.depth] at hdepth
    refine ⟨hkept, fun h => ?_, by rw [hdb, hdisk], Or.inl ⟨rfl, Or.inl hdepth⟩⟩
    have h0 : (rolledBack t).depth = 0 := h
    rw [hdb]
    exact hlast (by omega)

theorem dbRollback_spec (a : ControlAnswer) {s : State D} (hq : Quiet s) :
    RollbackSpec s (dbRollback a s) := by
  unfold dbRollback
  by_cases hc : s.depth = 0 ∨ !s.isOpen
  · rw [if_pos hc]
    exact ⟨Kept.refl s, hq, rfl, Or.inr ⟨rfl, rfl⟩⟩
  rw [if_neg hc]
  rw [not_or] at hc
  have hd := hc.1
  by_cases hauto : (!s.db.autocommit) = true
  · rw [if_pos hauto]
    have hno : ∀ p ∈ rollbackText s.depth a, p.1 ≠ Control.commit := by
      intro p hp
      unfold rollbackText at hp
      split at hp
      · rw [List.mem_singleton.mp hp]
        exact fun h => nomatch h
      · rcases List.mem_cons.mp hp with rfl | hp
        · exact fun h => nomatch h
        · rw [List.mem_singleton.mp hp]
          exact fun h => nomatch h
    obtain ⟨hr, hok, -⟩ := runControl_spec (rollbackText s.depth a) a.code s
    have hdisk := runControl_disk _ hno a.code s
    cases hrun : runControlStatement (rollbackText s.depth a) a.code s with
    | mk t ok =>
        rw [hrun] at hr hok hdisk
        cases ok with
        | true =>
            refine rolledBack_spec hr hdisk (fun h1 => ?_) hd
            have hexec := hok rfl
            rw [rollbackText, if_pos h1] at hexec
            exact exec_rollback_txn (controls_one_true hexec)
        | false =>
            exact ⟨Frame.kept hr, fun h => absurd (hr.depth.symm.trans h) hd, hdisk,
              Or.inr ⟨rfl, hr.depth⟩⟩
  · rw [if_neg hauto]
    refine rolledBack_spec (Frame.refl s) rfl (fun _ => ?_) hd
    exact (autocommit_iff _).mp (by simpa using hauto)

end DbControl

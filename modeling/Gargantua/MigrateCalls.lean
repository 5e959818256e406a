import Gargantua.DbControl
import Gargantua.Migrate

/-! # What a migration call can do

    `db_script`, `db_migration_count` and `db_migration` run inside the one
    transaction of `apply_migrations`.  `Executes` and `Applied` say what it
    means that a script runs, and that files are run and recorded one after
    the other; each call either fails, with the disk as it was, or moves the
    transaction's copy the way these relations say.  What a call needs from
    SQLite to succeed is that it refuses nothing (`Fine`). -/

namespace MigrateCalls

open CString Savepoint DbSqlite DbCalls DbControl Migrate

variable {U : Type}

/-! ## Running scripts, abstractly -/

/-- A script runs: SQLite cuts it into statements, and each of them runs to its
    end without returning a row.  The number counts the statements, blanks
    between them included. -/
inductive Executes (compile : Bytes → Store U → Compiled U) :
    Nat → Bytes → Store U → Store U → Prop
  | done (db : Store U) : Executes compile 0 [] db db
  | blank {n k : Nat} {sql : Bytes} {db db' : Store U} (hsql : sql ≠ [])
      (hc : compile sql db = .ok none k) (hk : k ≠ 0)
      (h : Executes compile n (sql.drop k) db db') : Executes compile (n + 1) sql db db'
  | stmt {n k : Nat} {f : U → U} {sql : Bytes} {db db' : Store U} (hsql : sql ≠ [])
      (hc : compile sql db = .ok (some ⟨.done f, true⟩) k) (hk : k ≠ 0)
      (h : Executes compile n (sql.drop k) { db with user := f db.user } db') :
      Executes compile (n + 1) sql db db'

/-- A script within the loop bound of `db_script` runs. -/
def Script (compile : Bytes → Store U → Compiled U) (sql : Bytes) (db db' : Store U) : Prop :=
  ∃ n, n ≤ SCRIPT_MAX ∧ Executes compile n sql db db'

/-- One more recorded row. -/
def record (db : Store U) (row : Row) : Store U := { db with table := some (db.rows ++ [row]) }

/-- The files are run in this order, and each is recorded after its script. -/
inductive Applied (compile : Bytes → Store U → Compiled U) :
    List Migration → Store U → Store U → Prop
  | nil (db : Store U) : Applied compile [] db db
  | cons {m : Migration} {ms : List Migration} {db db₁ db' : Store U}
      (hm : Script compile m.sql db db₁) (h : Applied compile ms (record db₁ m.row) db') :
      Applied compile (m :: ms) db db'

/-- A script leaves the table alone. -/
theorem Executes.table {compile : Bytes → Store U → Compiled U} {n : Nat} {sql : Bytes}
    {db db' : Store U} (h : Executes compile n sql db db') : db'.table = db.table := by
  induction h with
  | done db => rfl
  | blank _ _ _ _ ih => exact ih
  | stmt _ _ _ _ ih => exact ih

/-- A script has one result. -/
theorem Executes.unique {compile : Bytes → Store U → Compiled U} {n n' : Nat} {sql : Bytes}
    {db a b : Store U} (h : Executes compile n sql db a) (h' : Executes compile n' sql db b) :
    a = b := by
  induction h generalizing n' with
  | done db =>
      cases h' with
      | done => rfl
      | blank hsql => exact absurd rfl hsql
      | stmt hsql => exact absurd rfl hsql
  | blank hsql hc hk _ ih =>
      cases h' with
      | done => exact absurd rfl hsql
      | blank _ hc' _ h' =>
          rw [hc] at hc'
          cases hc'
          exact ih h'
      | stmt _ hc' _ h' =>
          rw [hc] at hc'
          exact nomatch hc'
  | stmt hsql hc hk _ ih =>
      cases h' with
      | done => exact absurd rfl hsql
      | blank _ hc' _ h' =>
          rw [hc] at hc'
          exact nomatch hc'
      | stmt _ hc' _ h' =>
          rw [hc] at hc'
          cases hc'
          exact ih h'

theorem Script.rows {compile : Bytes → Store U → Compiled U} {sql : Bytes} {db db' : Store U}
    (h : Script compile sql db db') : db'.rows = db.rows := by
  obtain ⟨n, -, h⟩ := h
  rw [Store.rows, Store.rows, h.table]

theorem Script.unique {compile : Bytes → Store U → Compiled U} {sql : Bytes}
    {db a b : Store U} (h : Script compile sql db a) (h' : Script compile sql db b) : a = b := by
  obtain ⟨n, -, h⟩ := h
  obtain ⟨n', -, h'⟩ := h'
  exact h.unique h'

theorem record_rows (db : Store U) (row : Row) : (record db row).rows = db.rows ++ [row] := rfl

/-- Applied files are recorded behind what was recorded. -/
theorem Applied.rows {compile : Bytes → Store U → Compiled U} {ms : List Migration}
    {db db' : Store U} (h : Applied compile ms db db') :
    db'.rows = db.rows ++ ms.map Migration.row := by
  induction h with
  | nil db => exact (List.append_nil _).symm
  | cons hm _ ih => rw [ih, record_rows, hm.rows, List.append_assoc]; rfl

theorem Applied.unique {compile : Bytes → Store U → Compiled U} {ms : List Migration}
    {db a b : Store U} (h : Applied compile ms db a) (h' : Applied compile ms db b) : a = b := by
  induction h with
  | nil db =>
      cases h'
      rfl
  | cons hm _ ih =>
      cases h' with
      | cons hm' h' =>
          obtain rfl := hm.unique hm'
          exact ih h'

/-! ## The state of the transaction -/

/-- SQLite grants the lock and refuses no statement of the bookkeeping. -/
structure Fine (env : Env U) : Prop where
  lock : env.lock = .acquired
  begin : env.begin.first = .success
  commit : env.commit.first = .success
  refuse : ∀ b, env.refuse b = none

/-- No transaction is open. -/
structure Ready (s : State (Store U)) : Prop where
  isOpen : s.isOpen = true
  depth : s.depth = 0
  txn : s.db.txn = none
  failedLevel : s.failedLevel = 0
  lock : s.lock = .free

/-- Inside the transaction, over this disk. -/
structure Inside (disk : Store U) (s : State (Store U)) : Prop where
  depth : s.depth = 1
  disk : s.db.disk = disk

/-- Inside the transaction, whose copy this is. -/
structure Running (disk cur : Store U) (s : State (Store U)) : Prop extends Inside disk s where
  isOpen : s.isOpen = true
  txn : s.db.txn = some ⟨cur, []⟩
  failedLevel : s.failedLevel = 0
  lock : s.lock = .held

variable {disk cur : Store U} {s : State (Store U)}

theorem Running.content (h : Running disk cur s) : s.db.content = cur := by
  rw [Db.content, h.txn]

theorem Inside.quiet (h : Inside disk s) : Quiet s := by
  intro h0
  exact absurd (h.depth.symm.trans h0) (Nat.succ_ne_zero 0)

theorem Inside.mark (h : Inside disk s) : Inside disk (mark s) :=
  ⟨by rw [mark_depth, h.depth], by rw [mark_db, h.disk]⟩

theorem Inside.failure (h : Inside disk s) (code : Nat) : Inside disk (dbFailure code s) :=
  ⟨by rw [dbFailure_depth, h.depth], by rw [dbFailure_db, h.disk]⟩

theorem Inside.unlock (h : Inside disk s) : Inside disk (dbUnlock s) :=
  ⟨by rw [dbUnlock_depth, h.depth], by rw [dbUnlock_db, h.disk]⟩

/-- Inside a transaction `db_unlock` does nothing. -/
theorem Running.unlock (h : Running disk cur s) : Running disk cur (dbUnlock s) := by
  rw [dbUnlock, if_neg (by rw [h.depth]; exact Nat.succ_ne_zero 0)]
  exact h

/-- A write of the transaction. -/
theorem Running.write (h : Running disk cur s) (f : Store U → Store U) :
    Running disk (f cur) { s with db := s.db.write f } := by
  obtain ⟨⟨hdepth, hdisk⟩, hopen, htxn, hfailed, hlock⟩ := h
  have hw : s.db.write f = { s.db with txn := some ⟨f cur, []⟩ } := by
    rw [Db.write, htxn]
  exact ⟨⟨hdepth, by rw [hw]; exact hdisk⟩, hopen, by rw [hw], hfailed, hlock⟩

/-- A step inside the transaction, whatever it is, leaves the disk alone. -/
theorem Running.apply (h : Running disk cur s) (r : StepReply (Store U)) :
    Inside disk { s with db := r.apply s.db } := by
  refine ⟨h.depth, ?_⟩
  cases r with
  | row f column decodes => exact (h.write f).disk
  | done f => exact (h.write f).disk
  | error code f => exact (h.write f).disk
  | rolledBack code => exact h.disk

theorem Running.lastId (h : Running disk cur s) (lastId : Int) :
    Running disk cur { s with lastId := lastId } :=
  ⟨⟨h.depth, h.disk⟩, h.isOpen, h.txn, h.failedLevel, h.lock⟩

/-! ## The bookkeeping statements -/

/-- What `sqlite3_prepare_v2` gives for a bookkeeping statement: the statement
    itself, which SQLite may still refuse when finalizing it; or SQLite refuses it
    there or at its step. -/
inductive Prepared (env : Env U) (b : Bookkeeping) (params changes : Nat)
    (reply : StepReply (Store U)) : Prepare (Store U) → Prop
  | runs (code : Nat) (h : code = 0 ∨ env.refuse b ≠ none) :
      Prepared env b params changes reply
        (.ok (some ⟨params, fun _ => true, false, 1, [reply], changes, 0, code⟩) [])
  | prepare (code : Nat) (h : env.refuse b ≠ none) :
      Prepared env b params changes reply (.error code)
  | step (code : Nat) (h : env.refuse b ≠ none) (r : StepReply (Store U))
      (hr : r = .error code id ∨ r = .rolledBack code) : Prepared env b params changes reply
      (.ok (some ⟨params, fun _ => true, false, 1, [r], changes, 0, code⟩) [])

theorem prepared_spec (env : Env U) (b : Bookkeeping) (params changes : Nat)
    (reply : StepReply (Store U)) :
    Prepared env b params changes reply (env.prepared b params changes reply) := by
  rw [Env.prepared]
  cases h : env.refuse b with
  | none => exact .runs 0 (Or.inl rfl)
  | some refusal =>
      have hne : env.refuse b ≠ none := by
        rw [h]
        exact fun h => nomatch h
      cases refusal with
      | prepare code => exact .prepare code hne
      | step code => exact .step code hne _ (Or.inl rfl)
      | rollback code => exact .step code hne _ (Or.inr rfl)
      | finalize code => exact .runs code (Or.inr hne)

theorem nextStep_cons (r : StepReply (Store U)) (rest : List (StepReply (Store U))) :
    (nextStep (r :: rest)).1 = r := rfl

/-- A text, its arguments and their number, as a bookkeeping statement has them. -/
structure Sound (sql : Bytes) (args : List SqlArg) (params : Nat) : Prop where
  short : (cstr sql).length < DB_MAX_SQL
  few : params ≤ DB_MAX_ARGS
  binds : bindArguments (fun _ => true) 0 ((args.take params).take DB_MAX_ARGS) = true

/-- `prepare_statement` accepts a bookkeeping statement that SQLite compiles. -/
theorem prepareStatement_ok (h : Running disk cur s) {sql : Bytes} {args : List SqlArg}
    {nargs : Int} {params : Nat} (hn : nargs = params) (hs : Sound sql args params)
    {steps : List (StepReply (Store U))} {changes finalize : Nat} :
    prepareStatement sql args nargs
        (.ok (some ⟨params, fun _ => true, false, 1, steps, changes, 0, finalize⟩) []) s
      = (s, some ⟨params, fun _ => true, false, 1, steps, changes, 0, finalize⟩) := by
  have hauto : ¬ (s.depth > 0 ∧ s.db.autocommit = true) := by
    rintro ⟨-, hauto⟩
    rw [autocommit_iff, h.txn] at hauto
    exact nomatch hauto
  have hopen : ¬ (!s.isOpen) = true := by
    rw [h.isOpen]
    exact Bool.false_ne_true
  unfold prepareStatement
  rw [if_neg hopen, if_neg (Nat.not_le.mpr hs.short), if_neg hauto]
  dsimp only
  rw [hn, if_neg (by exact fun h => h rfl), if_neg (by exact fun h => h rfl),
    Int.toNat_natCast, hs.binds]
  rfl

/-- One that SQLite refuses to compile leaves the disk alone. -/
theorem prepareStatement_error (h : Inside disk s) (sql : Bytes) (args : List SqlArg)
    (nargs : Int) (code : Nat) :
    ∃ s', prepareStatement sql args nargs (.error code) s = (s', none) ∧ Inside disk s' := by
  rcases prepareStatement_spec sql args nargs (.error code) s with
    ⟨s', hp, hframe, hdb, -, -⟩ | ⟨st, tail, -, -, hp⟩
  · exact ⟨s', hp, hframe.depth.trans h.depth, (congrArg Db.disk hdb).trans h.disk⟩
  · exact nomatch hp

/-- A bookkeeping write is done, or SQLite refused it. -/
inductive WriteSpec (env : Env U) (b : Bookkeeping) (changes : Nat) (disk new : Store U) :
    State (Store U) × Int → Prop
  | written {s : State (Store U)} (hs : Running disk new s) :
      WriteSpec env b changes disk new (s, changes)
  | refused {s : State (Store U)} (hs : Inside disk s) (h : env.refuse b ≠ none) :
      WriteSpec env b changes disk new (s, -1)

/-- `db_execute` of a bookkeeping statement that writes `f`. -/
theorem dbExecute_write (h : Running disk cur s) {env : Env U} {b : Bookkeeping}
    {sql : Bytes} {args : Option (List SqlArg)} {nargs : Int} {params changes : Nat}
    (hargs : argsOk ⟨some sql, args, nargs⟩ = true) (hn : nargs = params)
    (hs : Sound sql (args.getD []) params) (f : Store U → Store U) :
    WriteSpec env b changes disk (f cur) (dbExecute ⟨some sql, args, nargs⟩
      ⟨env.lock, 3035000, env.prepared b params changes (.done f)⟩ s) := by
  have hlock : dbLock env.lock s = (s, true) := by
    unfold dbLock
    exact if_pos (by rw [h.depth]; exact Nat.one_pos)
  unfold dbExecute
  dsimp only
  rw [if_neg (by rw [hargs]; exact Bool.false_ne_true), hlock]
  dsimp only
  have hr := h.lastId (-1)
  have hp := prepared_spec env b params changes (.done f)
  revert hp
  generalize env.prepared b params changes (.done f) = p
  intro hp
  cases hp with
  | runs code hcode =>
      -- `db_execute` does not look at what finalizing returns
      rw [prepareStatement_ok hr hn hs]
      exact .written ((hr.write f).lastId _).unlock
  | prepare code hne =>
      obtain ⟨s', hp, hin⟩ := prepareStatement_error hr.toInside sql (args.getD []) nargs code
      rw [hp]
      exact .refused hin.unlock hne
  | step code hne r hstep =>
      rw [prepareStatement_ok hr hn hs]
      rcases hstep with rfl | rfl
      · exact .refused ((hr.apply (.error code id)).mark.failure code).unlock hne
      · exact .refused ((hr.apply (.rolledBack code)).mark.failure code).unlock hne

/-! ## `db_script` -/

/-- The loop runs the script, or it fails and the script does not run. -/
inductive ScriptSpec (runs : Store U → Prop) (disk : Store U) :
    State (Store U) × Int → Prop
  | ran {s : State (Store U)} {db : Store U} (h : runs db) (hs : Running disk db s) :
      ScriptSpec runs disk (s, 0)
  | failed {s : State (Store U)} (h : ∀ db, ¬ runs db) (hs : Inside disk s) :
      ScriptSpec runs disk (s, -1)

theorem ScriptSpec.congr {runs runs' : Store U → Prop} {r : State (Store U) × Int}
    (h : ScriptSpec runs disk r) (hiff : ∀ db, runs db ↔ runs' db) :
    ScriptSpec runs' disk r := by
  cases h with
  | ran h hs => exact .ran ((hiff _).mp h) hs
  | failed h hs => exact .failed (fun db h' => h db ((hiff db).mpr h')) hs

theorem scriptLoop_spec (env : Env U) : ∀ (n : Nat) (cursor : Bytes) {cur : Store U}
    {s : State (Store U)}, Running disk cur s →
    ScriptSpec (fun db => ∃ k, k ≤ n ∧ Executes env.compile k cursor cur db) disk
      (scriptLoop env n cursor s) := by
  intro n
  induction n with
  | zero =>
      intro cursor cur s h
      rw [scriptLoop]
      by_cases hc : cursor = []
      · rw [if_pos hc, hc]
        exact .ran ⟨0, Nat.le_refl 0, .done cur⟩ h
      · rw [if_neg hc]
        refine .failed ?_ h.toInside
        rintro db ⟨k, hk, hex⟩
        obtain rfl := Nat.le_zero.mp hk
        cases hex
        exact hc rfl
  | succ n ih =>
      intro cursor cur s h
      rw [scriptLoop]
      by_cases hc : cursor = []
      · rw [if_pos hc, hc]
        exact .ran ⟨0, Nat.zero_le _, .done cur⟩ h
      rw [if_neg hc, h.content]
      -- what the loop does not do next, the script cannot do either
      have hstuck : (∀ k, env.compile cursor cur = .ok none k → k ≠ 0 → False) →
          (∀ f k, env.compile cursor cur = .ok (some ⟨.done f, true⟩) k → k ≠ 0 → False) →
          ∀ db, ¬ ∃ k, k ≤ n + 1 ∧ Executes env.compile k cursor cur db := by
        rintro hblank hstmt db ⟨k, -, hex⟩
        cases hex with
        | done => exact hc rfl
        | blank _ hk hne _ => exact hblank _ hk hne
        | stmt _ hk hne _ => exact hstmt _ _ hk hne
      cases hcomp : env.compile cursor cur with
      | error =>
          rw [hcomp] at hstuck
          exact .failed (hstuck (fun k hk => (nomatch hk)) fun f k hk => (nomatch hk)) h.toInside
      | ok stmt consumed =>
          rw [hcomp] at hstuck
          dsimp only
          by_cases hz : consumed = 0
          · rw [if_pos hz]
            refine .failed (hstuck ?_ ?_) h.toInside
            · intro k hk hne
              cases hk
              exact hne hz
            · intro f k hk hne
              cases hk
              exact hne hz
          rw [if_neg hz]
          cases stmt with
          | none =>
              refine (ih (cursor.drop consumed) h).congr fun db => ⟨?_, ?_⟩
              · rintro ⟨k, hk, hex⟩
                exact ⟨k + 1, by omega, .blank hc hcomp hz hex⟩
              · rintro ⟨k, hk, hex⟩
                cases hex with
                | done => exact absurd rfl hc
                | blank _ hk' _ hex =>
                    rw [hcomp] at hk'
                    cases hk'
                    exact ⟨_, by omega, hex⟩
                | stmt _ hk' _ _ =>
                    rw [hcomp] at hk'
                    exact nomatch hk'
          | some st =>
              obtain ⟨reply, finalizeOk⟩ := st
              -- only a statement that is done, and finalized, goes on
              have hfail : (∀ f, reply = .done f → finalizeOk = true → False) →
                  ScriptSpec (fun db => ∃ k, k ≤ n + 1 ∧ Executes env.compile k cursor cur db)
                    disk ({ s with db := (liftStep reply).apply s.db }, -1) := by
                intro hno
                refine .failed (hstuck (fun k hk => (nomatch hk)) ?_) (h.apply _)
                intro f k hk _
                cases hk
                exact hno f rfl rfl
              cases reply with
              | row f column decodes => exact hfail fun f hf => nomatch hf
              | error code f => exact hfail fun f hf => nomatch hf
              | rolledBack code => exact hfail fun f hf => nomatch hf
              | done f =>
                  cases finalizeOk with
                  | false => exact hfail fun f _ hf => nomatch hf
                  | true =>
                      refine (ih (cursor.drop consumed)
                        (h.write fun db => { db with user := f db.user })).congr
                        fun db => ⟨?_, ?_⟩
                      · rintro ⟨k, hk, hex⟩
                        exact ⟨k + 1, by omega, .stmt hc hcomp hz hex⟩
                      · rintro ⟨k, hk, hex⟩
                        cases hex with
                        | done => exact absurd rfl hc
                        | blank _ hk' _ _ =>
                            rw [hcomp] at hk'
                            exact nomatch hk'
                        | stmt _ hk' _ hex =>
                            rw [hcomp] at hk'
                            cases hk'
                            exact ⟨_, by omega, hex⟩

/-- **`db_script`** runs a script exactly when it runs. -/
theorem dbScript_spec (env : Env U) {sql : Bytes} (hsql : (0 : Byte) ∉ sql)
    (h : Running disk cur s) :
    ScriptSpec (fun db => Script env.compile sql cur db) disk (dbScript env sql s) := by
  rw [dbScript, if_neg, cstr_eq_self hsql]
  · exact scriptLoop_spec env SCRIPT_MAX sql h
  · rintro (h0 | hclosed)
    · rw [h.depth] at h0
      exact absurd h0 (Nat.succ_ne_zero 0)
    · rw [h.isOpen] at hclosed
      exact nomatch hclosed

/-! ## `db_migration_count` -/

/-- The table exists. -/
def created (db : Store U) : Store U := { db with table := some db.rows }

/-- `db_migration_count` creates the table and counts its rows, or SQLite refused
    a statement. -/
inductive CountSpec (env : Env U) (disk cur : Store U) : State (Store U) × Int → Prop
  | counted {s : State (Store U)} (hs : Running disk (created cur) s) :
      CountSpec env disk cur (s, columnInt cur.rows.length)
  | failed {s : State (Store U)} (hs : Inside disk s) (h : ¬ Fine env) :
      CountSpec env disk cur (s, -1)

theorem not_fine {env : Env U} {b : Bookkeeping} (h : env.refuse b ≠ none) : ¬ Fine env :=
  fun hf => h (hf.refuse b)

theorem dbMigrationCount_spec (env : Env U) (h : Running disk cur s) :
    CountSpec env disk cur (dbMigrationCount env s) := by
  rw [dbMigrationCount, if_neg (by rw [h.depth]; exact Nat.succ_ne_zero 0)]
  split
  rename_i s₁ rc hexec
  have hw : WriteSpec env .create 0 disk (created cur) (s₁, rc) := by
    rw [← hexec]
    exact dbExecute_write h (by decide +kernel) (by rfl)
      ⟨by decide +kernel, by decide, by rfl⟩ created
  cases hw with
  | refused hs hne =>
      rw [if_pos (by decide)]
      exact .failed hs (not_fine hne)
  | written h₁ =>
      rw [if_neg (by decide)]
      have hsound : Sound (lit "SELECT count(*) FROM _gargantua_migrations") [] 0 :=
        ⟨by decide +kernel, by decide, rfl⟩
      rw [h₁.content]
      have hp := prepared_spec env .count 0 0 (countReply (created cur))
      revert hp
      generalize env.prepared .count 0 0 (countReply (created cur)) = p
      intro hp
      have h0 : (0 : Int) = (0 : Nat) := rfl
      cases hp with
      | runs code hcode =>
          rw [prepareStatement_ok h₁ h0 hsound]
          dsimp only
          by_cases hz : code = 0
          · rw [if_neg (by exact fun h => h hz)]
            exact .counted (h₁.write id)
          · rw [if_pos hz]
            exact .failed (h₁.apply _) (not_fine (hcode.resolve_left hz))
      | prepare code hne =>
          obtain ⟨s', hp, hin⟩ := prepareStatement_error h₁.toInside
            (lit "SELECT count(*) FROM _gargantua_migrations") [] 0 code
          rw [hp]
          exact .failed hin (not_fine hne)
      | step code hne r hstep =>
          rw [prepareStatement_ok h₁ h0 hsound]
          dsimp only
          split
          · exact .failed (h₁.apply _) (not_fine hne)
          · rcases hstep with rfl | rfl
            · exact .failed (h₁.apply _) (not_fine hne)
            · exact .failed (h₁.apply _) (not_fine hne)

/-! ## `db_migration` -/

/-- A migration as the directory loop yields them. -/
structure Clean (m : Migration) : Prop where
  version : 0 < m.version
  name : (0 : Byte) ∉ m.name
  sql : (0 : Byte) ∉ m.sql

/-- The row found for a version has that version. -/
theorem lookup_version {rows : List Row} {version : Int} {row : Row}
    (h : lookup rows version = some row) : row.version = version := by
  rw [lookup] at h
  have hp := List.find?_some h
  exact beq_iff_eq.mp hp

theorem sameText_iff {saved given : Bytes} (h : (0 : Byte) ∉ given) :
    sameText saved given = true ↔ saved = given := by
  rw [sameText, Bool.and_eq_true, beq_iff_eq, beq_iff_eq, cstr_eq_self h]
  constructor
  · rintro ⟨hlen, hc⟩
    -- a NUL in the saved text would have cut it short
    have hpre : cstr saved = saved := by
      refine (List.takeWhile_prefix _).eq_of_length ?_
      rw [show saved.takeWhile _ = cstr saved from rfl, hc, hlen]
    rw [← hpre, hc]
  · rintro rfl
    exact ⟨rfl, cstr_eq_self h⟩

/-- The saved texts are compared exactly. -/
theorem validStep_row {m : Migration} (hm : Clean m) {row : Row}
    (hrow : row.version = m.version) :
    validStep SQLITE_ROW (some row) m.name m.sql = true ↔ row = m.row := by
  obtain ⟨version, name, sql⟩ := row
  rw [validStep, if_pos rfl, Option.any_some, Bool.and_eq_true, sameText_iff hm.name,
    sameText_iff hm.sql, Migration.row]
  constructor
  · rintro ⟨rfl, rfl⟩
    rw [← show version = m.version from hrow]
  · intro h
    cases h
    exact ⟨rfl, rfl⟩

/-- Whether a version is recorded as this file, not recorded, or just applied; or
    the call failed, and unless SQLite refused a statement this was the fault of
    the recorded row or of the script. -/
inductive MigrationSpec (env : Env U) (m : Migration) (apply : Bool) (disk cur : Store U) :
    State (Store U) × Int → Prop
  | recorded {s : State (Store U)} (h : lookup cur.rows m.version = some m.row)
      (hs : Running disk cur s) : MigrationSpec env m apply disk cur (s, 1)
  | missing {s : State (Store U)} (happly : apply = false)
      (h : lookup cur.rows m.version = none) (hs : Running disk cur s) :
      MigrationSpec env m apply disk cur (s, 0)
  | applied {s : State (Store U)} {db : Store U} (happly : apply = true)
      (h : lookup cur.rows m.version = none) (hrun : Script env.compile m.sql cur db)
      (hs : Running disk (record db m.row) s) : MigrationSpec env m apply disk cur (s, 1)
  | failed {s : State (Store U)} (hs : Inside disk s)
      (h : Fine env → (∃ row, lookup cur.rows m.version = some row ∧ row ≠ m.row)
        ∨ (apply = true ∧ lookup cur.rows m.version = none
            ∧ ∀ db, ¬ Script env.compile m.sql cur db)) :
      MigrationSpec env m apply disk cur (s, -1)

theorem dbMigration_spec (env : Env U) {m : Migration} (hm : Clean m) (apply : Bool)
    (h : Running disk cur s) :
    MigrationSpec env m apply disk cur (dbMigration env m.version m.name m.sql apply s) := by
  unfold dbMigration
  rw [if_neg (by
    have := hm.version
    rw [h.depth]
    omega)]
  dsimp only
  rw [h.content]
  have hsound : Sound (lit "SELECT name, sql FROM _gargantua_migrations WHERE version = ?")
      [.int] 1 := ⟨by decide +kernel, by decide, rfl⟩
  have hp := prepared_spec env (.select m.version apply) 1 0 (selectReply cur m.version)
  revert hp
  generalize env.prepared (.select m.version apply) 1 0 (selectReply cur m.version) = p
  intro hp
  have h1 : (1 : Int) = (1 : Nat) := rfl
  -- SQLite refused the statement
  have hrefused : ∀ s', Inside disk s' → ¬ Fine env →
      MigrationSpec env m apply disk cur (s', -1) :=
    fun s' hs hne => .failed hs fun hf => absurd hf hne
  cases hp with
  | prepare code hne =>
      obtain ⟨s', hp, hin⟩ := prepareStatement_error h.toInside
        (lit "SELECT name, sql FROM _gargantua_migrations WHERE version = ?") [.int] 1 code
      rw [hp]
      exact hrefused _ hin (not_fine hne)
  | step code hne r hstep =>
      rw [prepareStatement_ok h h1 hsound]
      dsimp only
      rw [nextStep_cons]
      -- a step that fails is neither a row nor the end
      have hcond : code ≠ 0 ∨ validStep r.code (lookup cur.rows m.version) m.name m.sql
          = false := by
        rcases ne_or_eq code 0 with hz | rfl
        · exact Or.inl hz
        · rcases hstep with rfl | rfl
          · exact Or.inr rfl
          · exact Or.inr rfl
      rw [if_pos hcond]
      exact hrefused _ (h.apply _) (not_fine hne)
  | runs code hcode =>
      rw [prepareStatement_ok h h1 hsound]
      dsimp only
      rw [nextStep_cons]
      by_cases hz : code ≠ 0
      · rw [if_pos (Or.inl hz)]
        exact hrefused _ (h.apply _) (not_fine (hcode.resolve_left hz))
      rw [not_not] at hz
      cases hl : lookup cur.rows m.version with
      | some row =>
          have hv := validStep_row hm (lookup_version hl)
          have hsel : selectReply cur m.version = .row id none true := by
            rw [selectReply, hl]
          have hrcode : (StepReply.row id none true : StepReply (Store U)).code = SQLITE_ROW := rfl
          rw [hsel, hrcode]
          by_cases hrow : row = m.row
          · rw [if_neg (by rw [hv.mpr hrow]; simp [hz]), if_pos rfl]
            exact .recorded (hrow ▸ hl) (h.write id)
          · rw [if_pos (Or.inr (Bool.eq_false_iff.mpr fun h => hrow (hv.mp h)))]
            exact .failed (h.apply _) fun _ => Or.inl ⟨row, hl, hrow⟩
      | none =>
          have hsel : selectReply cur m.version = .done id := by
            rw [selectReply, hl]
          have hrcode : (StepReply.done id : StepReply (Store U)).code = SQLITE_DONE := rfl
          have hvalid : validStep SQLITE_DONE none m.name m.sql = true := rfl
          rw [hsel, hrcode, if_neg (by simp [hz, hvalid]), if_neg (by decide)]
          have hw : Running disk cur
              { s with db := (StepReply.done id : StepReply (Store U)).apply s.db } :=
            h.write id
          cases apply with
          | false =>
              rw [if_pos rfl]
              exact .missing rfl hl hw
          | true =>
              rw [if_neg (by decide)]
              have hscript := dbScript_spec env hm.sql hw
              revert hscript
              generalize dbScript env m.sql _ = r
              intro hscript
              cases hscript with
              | failed hno hs =>
                  dsimp only
                  rw [if_pos (by decide)]
                  exact .failed hs fun _ => Or.inr ⟨rfl, hl, hno⟩
              | @ran s₁ db hrun hs =>
                  have hnone : lookup db.rows m.version = none := by
                    rw [hrun.rows, hl]
                  have hreply : insertReply s₁.db.content
                      ⟨m.version, cstr m.name, cstr m.sql⟩
                        = .done fun db => record db m.row := by
                    rw [hs.content, insertReply, hnone, cstr_eq_self hm.name,
                      cstr_eq_self hm.sql]
                    rfl
                  have hargs : argsOk ⟨some (lit
                      "INSERT INTO _gargantua_migrations(version,name,sql) VALUES (?,?,?)"),
                      some [.int, .text (some m.name), .text (some m.sql)], 3⟩ = true := rfl
                  have hsound : Sound
                      (lit "INSERT INTO _gargantua_migrations(version,name,sql) VALUES (?,?,?)")
                      [.int, .text (some m.name), .text (some m.sql)] 3 :=
                    ⟨by decide +kernel, by decide, rfl⟩
                  have hw : WriteSpec env (.insert m.version) 1 disk (record db m.row) _ :=
                    dbExecute_write hs hargs rfl hsound fun db => record db m.row
                  dsimp only
                  rw [if_neg (by decide), hreply]
                  revert hw
                  generalize dbExecute _ _ s₁ = r
                  intro hw
                  cases hw with
                  | written hs => exact .applied rfl hl hrun hs
                  | refused hs hne => exact hrefused _ hs (not_fine hne)

end MigrateCalls

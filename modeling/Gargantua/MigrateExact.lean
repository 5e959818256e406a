import Gargantua.MigrateCalls
import Gargantua.MigrateFiles

/-! # Migrations are exact, ordered, atomic and idempotent

    `migrate_run` succeeds exactly when the recorded rows are a first part of the
    files sorted by version and the scripts of the rest run (`Outcome`); then
    the rest is run in increasing order, each file once, and recorded.  In every
    other case, and whatever SQLite refuses on the way, the disk is as it was.
    The order in which `readdir` yields the files does not matter.

    What the files must satisfy for this (`Readable`) includes limits of their
    number and size; past them `migrate_run` fails. -/

namespace MigrateExact

open CString Savepoint DbSqlite DbCalls DbControl SortedInsert Migrate MigrateFiles
  MigrateCalls

variable {U : Type} {disk cur : Store U} {s : State (Store U)}

/-! ## The ends of the transaction -/

/-- A control statement that SQLite carries out. -/
theorem runControl_success {c : Control} {db' : Db (Store U)} (hopen : s.isOpen = true)
    (h : s.db.exec c = some db') (code : Nat) :
    runControlStatement [(c, .success)] code s = ({ s with db := db' }, true) := by
  have hc : s.db.controls [(c, .success)] = (db', true) := by
    rw [Db.controls, Db.control, h]
    rfl
  unfold runControlStatement
  rw [if_neg (by rw [hopen]; exact Bool.false_ne_true), hc]

/-- `db_begin` of a fresh connection that SQLite carries out. -/
theorem dbBegin_success (h : Ready s) {lock : LockReply} {a : ControlAnswer}
    (hlock : lock = .acquired) (ha : a.first = .success) :
    ∃ s', dbBegin lock a s = (s', 0) ∧ Running s.db.disk s.db.disk s' := by
  have hl : dbLock lock s = ({ s with lock := .held }, true) := by
    unfold dbLock
    rw [if_neg (by rw [h.depth]; exact Nat.lt_irrefl 0), hlock]
    dsimp only
    rw [h.lock]
    rfl
  have hb : Db.exec s.db .begin = some { s.db with txn := some ⟨s.db.disk, []⟩ } :=
    Db.exec_begin h.txn
  have hrun := runControl_success (s := { s with lock := .held }) h.isOpen hb a.code
  unfold dbBegin
  rw [if_neg (by rw [h.depth]; decide), hl]
  dsimp only
  rw [if_neg (by simp [h.isOpen, h.depth]), if_pos h.depth, ha, hrun]
  refine ⟨_, rfl, ⟨⟨?_, rfl⟩, h.isOpen, rfl, h.failedLevel, rfl⟩⟩
  show s.depth + 1 = 1
  rw [h.depth]

/-- A control statement that SQLite refuses. -/
theorem runControl_failure {c : Control} {r : Reply} (hr : r ≠ .success) (code : Nat) :
    ∃ t, runControlStatement [(c, r)] code s = (t, false) := by
  obtain ⟨-, hok, -⟩ := runControl_spec [(c, r)] code s
  cases hrun : runControlStatement [(c, r)] code s with
  | mk t ok =>
      cases ok with
      | false => exact ⟨t, rfl⟩
      | true =>
          rw [hrun] at hok
          have hc := hok rfl
          rw [Db.controls] at hc
          cases r with
          | success => exact absurd rfl hr
          | failure => cases (Prod.mk.inj hc).2
          | rolledBack => cases (Prod.mk.inj hc).2

/-- One that is refused. -/
theorem dbBegin_refused (h : Ready s) {lock : LockReply} {a : ControlAnswer}
    (hno : ¬ (lock = .acquired ∧ a.first = .success)) :
    ∃ s', dbBegin lock a s = (s', -1) ∧ s'.db.disk = s.db.disk := by
  obtain ⟨-, -, hdisk, -⟩ := dbBegin_spec lock a (s := s) fun _ => h.txn
  suffices hrc : ∃ s', dbBegin lock a s = (s', -1) by
    obtain ⟨s', hs'⟩ := hrc
    rw [hs'] at hdisk
    exact ⟨s', hs', hdisk⟩
  unfold dbBegin
  rw [if_neg (by rw [h.depth]; decide)]
  cases hl : dbLock lock s with
  | mk t ok =>
      cases ok with
      | false => exact ⟨t, rfl⟩
      | true =>
          -- the lock is held, so it is `BEGIN` that SQLite refuses
          have hlock : lock = .acquired := by
            unfold dbLock at hl
            rw [if_neg (by rw [h.depth]; exact Nat.lt_irrefl 0)] at hl
            cases lock with
            | acquired => rfl
            | busy => exact nomatch (Prod.mk.inj hl).2
            | gaveUp => exact nomatch (Prod.mk.inj hl).2
          dsimp only
          split
          · exact ⟨_, rfl⟩
          · obtain ⟨u, hu⟩ := runControl_failure (s := t)
              (c := if t.depth = 0 then .begin else .savepoint (t.depth + 1))
              (fun ha => hno ⟨hlock, ha⟩) a.code
            rw [hu]
            exact ⟨_, rfl⟩

/-- The outermost `db_commit` makes the transaction's copy the disk, or it is
    refused. -/
theorem dbCommit_running (h : Running disk cur s) (a : ControlAnswer) :
    (∃ s', dbCommit a s = (s', 0) ∧ Ready s' ∧ s'.db.disk = cur)
      ∨ (∃ s', dbCommit a s = (s', -1) ∧ Inside disk s' ∧ a.first ≠ .success) := by
  have hc : ¬ (s.depth = 0 ∨ s.failedLevel ≠ 0 ∨ (!s.isOpen) = true
      ∨ s.db.autocommit = true) := by
    rw [autocommit_iff, h.txn, h.depth, h.failedLevel, h.isOpen]
    simp
  unfold dbCommit
  rw [if_neg hc, if_pos h.depth]
  dsimp only
  by_cases ha : a.first = .success
  · left
    rw [ha, runControl_success h.isOpen (Db.exec_commit h.txn)]
    dsimp only
    have hdepth : s.depth - 1 = 0 := by
      rw [h.depth]
    rw [dbUnlock, if_pos hdepth, h.lock]
    exact ⟨_, rfl, ⟨h.isOpen, hdepth, rfl, h.failedLevel, rfl⟩, rfl⟩
  · right
    obtain ⟨t, ht⟩ := runControl_failure (s := s) (c := .commit) ha a.code
    obtain ⟨hframe, -, -⟩ := runControl_spec [(Control.commit, a.first)] a.code s
    have hdisk := runControl_refused_disk ht
    rw [ht] at hframe
    rw [ht]
    exact ⟨t, rfl, ⟨hframe.depth.trans h.depth, hdisk.trans h.disk⟩, ha⟩

/-! ## The two loops -/

/-- A loop over the files ends well in a database, or it stops inside the
    transaction because of the files, or of SQLite. -/
inductive LoopSpec (env : Env U) (good : Store U → Prop) (disk : Store U) :
    State (Store U) × Bool → Prop
  | done {s : State (Store U)} {db : Store U} (h : good db) (hs : Running disk db s) :
      LoopSpec env good disk (s, true)
  | failed {s : State (Store U)} (hs : Inside disk s) (h : Fine env → ∀ db, ¬ good db) :
      LoopSpec env good disk (s, false)

/-- The first `applied` files from here on are recorded as they are, the others
    not at all. -/
def Verified (rows : List Row) (applied i : Nat) (ms : List Migration) : Prop :=
  (∀ m ∈ ms.take (applied - i), lookup rows m.version = some m.row)
    ∧ ∀ m ∈ ms.drop (applied - i), lookup rows m.version = none

theorem verified_cons (rows : List Row) (applied i : Nat) (m : Migration)
    (ms : List Migration) :
    Verified rows applied i (m :: ms)
      ↔ lookup rows m.version = (if i < applied then some m.row else none)
        ∧ Verified rows applied (i + 1) ms := by
  rw [Verified, Verified]
  by_cases hi : i < applied
  · have hn : applied - i = applied - (i + 1) + 1 := by omega
    rw [if_pos hi, hn, List.take_succ_cons, List.drop_succ_cons, List.forall_mem_cons, and_assoc]
  · have hn : applied - i = 0 := by omega
    have hn' : applied - (i + 1) = 0 := by omega
    rw [if_neg hi, hn, hn', List.take_zero, List.take_zero, List.drop_zero, List.drop_zero,
      List.forall_mem_cons]
    constructor
    · rintro ⟨h1, h2, h3⟩
      exact ⟨h2, fun m hm => (nomatch hm), h3⟩
    · rintro ⟨h1, -, h3⟩
      exact ⟨fun m hm => (nomatch hm), h1, h3⟩

/-- The first loop changes nothing and checks the recorded rows. -/
theorem verifyLoop_spec (env : Env U) (applied : Nat) : ∀ (ms : List Migration) (i : Nat)
    {s : State (Store U)}, (∀ m ∈ ms, Clean m) → Running disk cur s →
    LoopSpec env (fun db => db = cur ∧ Verified cur.rows applied i ms) disk
      (verifyLoop env applied i ms s) := by
  intro ms
  induction ms with
  | nil =>
      intro i s _ h
      exact .done ⟨rfl, fun m hm => (by simp at hm), fun m hm => (by simp at hm)⟩ h
  | cons m ms ih =>
      intro i s hclean h
      obtain ⟨hm, hms⟩ := List.forall_mem_cons.mp hclean
      rw [verifyLoop]
      have hspec := dbMigration_spec env hm false h
      revert hspec
      generalize dbMigration env m.version m.name m.sql false s = r
      intro hspec
      -- the rest of the loop, when this file is as it should be
      have hrest : ∀ s', Running disk cur s' →
          lookup cur.rows m.version = (if i < applied then some m.row else none) →
          LoopSpec env (fun db => db = cur ∧ Verified cur.rows applied i (m :: ms)) disk
            (verifyLoop env applied (i + 1) ms s') := by
        intro s' hs' hl
        have hr := ih (i + 1) hms hs'
        revert hr
        generalize verifyLoop env applied (i + 1) ms s' = r
        intro hr
        cases hr with
        | done hg hs => exact .done ⟨hg.1, (verified_cons _ _ _ _ _).mpr ⟨hl, hg.2⟩⟩ hs
        | failed hs hno =>
            refine .failed hs fun hf db hg => hno hf db ⟨hg.1, ?_⟩
            exact ((verified_cons _ _ _ _ _).mp hg.2).2
      -- and its end, when it is not
      have hstop : ∀ s', Inside disk s' →
          (Fine env → lookup cur.rows m.version
            ≠ if i < applied then some m.row else none) →
          LoopSpec env (fun db => db = cur ∧ Verified cur.rows applied i (m :: ms)) disk
            (s', false) := by
        intro s' hs' hl
        exact .failed hs' fun hf db hg => hl hf ((verified_cons _ _ _ _ _).mp hg.2).1
      have hcast : ((i : Int) < (applied : Int)) ↔ i < applied := Int.ofNat_lt
      cases hspec with
      | recorded hl hs =>
          dsimp only
          by_cases hi : i < applied
          · rw [if_pos (hcast.mpr hi), if_neg (by decide)]
            exact hrest _ hs (by rw [if_pos hi, hl])
          · rw [if_neg (fun h => hi (hcast.mp h)), if_pos (by decide)]
            refine hstop _ hs.toInside fun _ => ?_
            rw [if_neg hi, hl]
            exact fun h => nomatch h
      | missing _ hl hs =>
          dsimp only
          by_cases hi : i < applied
          · rw [if_pos (hcast.mpr hi), if_pos (by decide)]
            refine hstop _ hs.toInside fun _ => ?_
            rw [if_pos hi, hl]
            exact fun h => nomatch h
          · rw [if_neg (fun h => hi (hcast.mp h)), if_neg (by decide)]
            exact hrest _ hs (by rw [if_neg hi, hl])
      | applied happly => exact nomatch happly
      | failed hs hno =>
          dsimp only
          rw [if_pos (by split <;> decide)]
          refine hstop _ hs fun hf => ?_
          rcases hno hf with ⟨row, hl, hrow⟩ | ⟨happly, -⟩
          · rw [hl]
            split
            · exact fun h => hrow (Option.some.inj h)
            · exact fun h => nomatch h
          · exact nomatch happly

/-- The versions of these files are not recorded, and pairwise distinct. -/
def Fresh (db : Store U) (ms : List Migration) : Prop :=
  (∀ m ∈ ms, lookup db.rows m.version = none) ∧ (ms.map Migration.version).Nodup

theorem lookup_none {rows : List Row} {version : Int} :
    lookup rows version = none ↔ ∀ row ∈ rows, row.version ≠ version := by
  rw [lookup, List.find?_eq_none]
  simp only [beq_iff_eq, ne_eq]

theorem lookup_append {rows : List Row} {row : Row} {version : Int} :
    lookup (rows ++ [row]) version = none
      ↔ lookup rows version = none ∧ row.version ≠ version := by
  rw [lookup_none, lookup_none, List.forall_mem_append, List.forall_mem_singleton]

theorem Fresh.tail {m : Migration} {ms : List Migration} {db db' : Store U}
    (h : Fresh db (m :: ms)) (hrows : db'.rows = db.rows) : Fresh (record db' m.row) ms := by
  obtain ⟨hnone, hnodup⟩ := h
  rw [List.map_cons, List.nodup_cons] at hnodup
  refine ⟨fun m' hm' => ?_, hnodup.2⟩
  rw [record_rows, hrows, lookup_append]
  refine ⟨hnone m' (List.mem_cons_of_mem m hm'), fun heq => hnodup.1 ?_⟩
  rw [show m.version = m'.version from Int.ofNat_inj.mp heq]
  exact List.mem_map_of_mem hm'

/-- The second loop runs and records the files in order. -/
theorem applyLoop_spec (env : Env U) : ∀ (ms : List Migration) {cur : Store U}
    {s : State (Store U)}, (∀ m ∈ ms, Clean m) → Fresh cur ms → Running disk cur s →
    LoopSpec env (Applied env.compile ms cur) disk (applyLoop env ms s) := by
  intro ms
  induction ms with
  | nil =>
      intro cur s _ _ h
      exact .done (.nil cur) h
  | cons m ms ih =>
      intro cur s hclean hfresh h
      obtain ⟨hm, hms⟩ := List.forall_mem_cons.mp hclean
      have hnone := hfresh.1 m List.mem_cons_self
      rw [applyLoop]
      have hspec := dbMigration_spec env hm true h
      revert hspec
      generalize dbMigration env m.version m.name m.sql true s = r
      intro hspec
      cases hspec with
      | recorded hl =>
          rw [hnone] at hl
          exact nomatch hl
      | missing happly => exact nomatch happly
      | applied _ _ hrun hs =>
          dsimp only
          rw [if_neg (by decide)]
          have hr := ih hms (hfresh.tail hrun.rows) hs
          revert hr
          generalize applyLoop env ms _ = r
          intro hr
          cases hr with
          | done hg hs => exact .done (.cons hrun hg) hs
          | failed hs hno =>
              refine .failed hs fun hf db hg => ?_
              cases hg with
              | cons hrun' hg =>
                  obtain rfl := hrun.unique hrun'
                  exact hno hf db hg
      | failed hs hno =>
          dsimp only
          rw [if_pos (by decide)]
          refine .failed hs fun hf db hg => ?_
          cases hg with
          | cons hrun _ =>
              rcases hno hf with ⟨row, hl, -⟩ | ⟨-, -, hno⟩
              · rw [hnone] at hl
                exact nomatch hl
              · exact hno _ hrun

/-! ## The recorded rows and the files -/

/-- The version is the table's primary key. -/
def PrimaryKey (rows : List Row) : Prop := (rows.map Row.version).Nodup

/-- Over a primary key a row is found by its version. -/
theorem lookup_some {rows : List Row} (hkey : PrimaryKey rows) {row : Row} :
    lookup rows row.version = some row ↔ row ∈ rows := by
  constructor
  · intro h
    rw [lookup] at h
    exact List.mem_of_find?_eq_some h
  · intro h
    cases hl : lookup rows row.version with
    | none => exact absurd rfl (lookup_none.mp hl row h)
    | some row' =>
        have hmem : row' ∈ rows := by
          rw [lookup] at hl
          exact List.mem_of_find?_eq_some hl
        rw [List.inj_on_of_nodup_map hkey hmem h (lookup_version hl)]

theorem rows_nodup {rows : List Row} (hkey : PrimaryKey rows) : rows.Nodup :=
  List.Nodup.of_map _ hkey

theorem row_version (m : Migration) : m.row.version = m.version := rfl

/-- The rows of files of distinct versions have distinct versions. -/
theorem primaryKey_files {files : List Migration} (h : (files.map Migration.version).Nodup) :
    PrimaryKey (files.map Migration.row) := by
  rw [PrimaryKey, List.map_map]
  have hmap : files.map (Row.version ∘ Migration.row)
      = (files.map Migration.version).map Int.ofNat := by
    rw [List.map_map]
    rfl
  rw [hmap]
  exact h.map fun a b hab => Int.ofNat.inj hab

/-- The rows are a first part of the files exactly when the first loop finds them
    so. -/
theorem verified_iff {rows : List Row} {files : List Migration} (hkey : PrimaryKey rows)
    (hfiles : (files.map Migration.version).Nodup) (hlen : rows.length ≤ files.length) :
    Verified rows rows.length 0 files
      ↔ rows.Perm ((files.take rows.length).map Migration.row) := by
  have htake : (files.take rows.length).length = rows.length := by
    rw [List.length_take]
    omega
  have hsub : (files.take rows.length).Sublist files := List.take_sublist _ _
  have hnodup : ((files.take rows.length).map Migration.row).Nodup :=
    rows_nodup (primaryKey_files (hfiles.sublist (hsub.map _)))
  rw [Verified, Nat.sub_zero]
  constructor
  · rintro ⟨hin, -⟩
    -- as many files as rows, each of them recorded
    have hsubset : (files.take rows.length).map Migration.row ⊆ rows := by
      intro row hrow
      obtain ⟨m, hm, rfl⟩ := List.mem_map.mp hrow
      exact (lookup_some hkey).mp (hin m hm)
    refine ((List.subperm_of_subset hnodup hsubset).perm_of_length_le ?_).symm
    rw [List.length_map, htake]
  · intro hperm
    constructor
    · intro m hm
      exact (lookup_some hkey).mpr (hperm.mem_iff.mpr (List.mem_map_of_mem hm))
    · intro m hm
      -- the versions of the files behind are other ones
      refine lookup_none.mpr fun row hrow heq => ?_
      obtain ⟨m', hm', rfl⟩ := List.mem_map.mp (hperm.mem_iff.mp hrow)
      have hsplit := hfiles
      rw [← List.take_append_drop rows.length files, List.map_append, List.nodup_append]
        at hsplit
      exact hsplit.2.2 _ (List.mem_map_of_mem hm') _ (List.mem_map_of_mem hm)
        (Int.ofNat_inj.mp heq)

/-- **What a run of `migrate_run` is for**: the recorded rows are a first part of
    the files, and running and recording the rest leads to this database. -/
def Outcome (compile : Bytes → Store U → Compiled U) (files : List Migration)
    (before after : Store U) : Prop :=
  ∃ old new, files = old ++ new ∧ before.rows.Perm (old.map Migration.row)
    ∧ Applied compile new (created before) after

/-- The first part has as many files as there are rows. -/
theorem outcome_iff {compile : Bytes → Store U → Compiled U} {files : List Migration}
    {before after : Store U} :
    Outcome compile files before after
      ↔ before.rows.length ≤ files.length
        ∧ before.rows.Perm ((files.take before.rows.length).map Migration.row)
        ∧ Applied compile (files.drop before.rows.length) (created before) after := by
  constructor
  · rintro ⟨old, new, rfl, hperm, happ⟩
    have hlen : before.rows.length = old.length := by
      rw [hperm.length_eq, List.length_map]
    rw [hlen, List.length_append, List.take_left, List.drop_left]
    exact ⟨Nat.le_add_right _ _, hperm, happ⟩
  · rintro ⟨-, hperm, happ⟩
    exact ⟨_, _, (List.take_append_drop before.rows.length files).symm, hperm, happ⟩

/-! ## `apply_migrations` -/

/-- A run ends in the database it is for, or the disk is as before; then, unless
    SQLite refused something, it is for no database. -/
inductive RunSpec (env : Env U) (good : Store U → Prop) (before : Store U) :
    State (Store U) × Int → Prop
  | done {s : State (Store U)} (h : good s.db.disk) (hs : Ready s) :
      RunSpec env good before (s, 0)
  | failed {s : State (Store U)} (hdisk : s.db.disk = before)
      (h : Fine env → ∀ db, ¬ good db) : RunSpec env good before (s, -1)

/-- `sqlite3_column_int` of a small count. -/
theorem columnInt_of_lt {n : Nat} (h : n < 2 ^ 31) : columnInt n = n := by
  rw [columnInt]
  omega

theorem applyMigrations_spec (env : Env U) {files : List Migration} (hs : Ready s)
    (hclean : ∀ m ∈ files, Clean m) (hfiles : (files.map Migration.version).Nodup)
    (hkey : PrimaryKey s.db.disk.rows) (hcount : s.db.disk.rows.length < 2 ^ 31) :
    RunSpec env (Outcome env.compile files s.db.disk) s.db.disk
      (applyMigrations env files s) := by
  unfold applyMigrations
  -- whatever goes wrong inside the transaction, `db_abort_all` keeps the disk
  have habort : ∀ t, Inside s.db.disk t →
      (Fine env → ∀ db, ¬ Outcome env.compile files s.db.disk db) →
      RunSpec env (Outcome env.compile files s.db.disk) s.db.disk
        (dbAbortAll env.abort t, -1) := by
    intro t ht hno
    refine .failed ?_ hno
    rw [(dbAbortAll_spec env.abort ht.quiet).disk, ht.disk]
  by_cases hbegin : env.lock = .acquired ∧ env.begin.first = .success
  swap
  · obtain ⟨t, ht, hdisk⟩ := dbBegin_refused hs hbegin
    rw [ht]
    exact .failed hdisk fun hf => absurd ⟨hf.lock, hf.begin⟩ hbegin
  obtain ⟨t, ht, hrun⟩ := dbBegin_success hs hbegin.1 hbegin.2
  rw [ht]
  dsimp only
  rw [if_neg (by decide)]
  have hc := dbMigrationCount_spec env hrun
  revert hc
  generalize dbMigrationCount env t = r
  intro hc
  cases hc with
  | failed hin hno =>
      dsimp only
      rw [if_pos (Or.inl (by decide))]
      exact habort _ hin fun hf => absurd hf hno
  | counted hrun =>
      rw [columnInt_of_lt hcount]
      dsimp only
      by_cases hlen : files.length < s.db.disk.rows.length
      · rw [if_pos (Or.inr (Int.ofNat_lt.mpr hlen))]
        exact habort _ hrun.toInside fun _ db hout =>
          absurd (outcome_iff.mp hout).1 (Nat.not_le.mpr hlen)
      rw [if_neg (by omega)]
      have hv := verifyLoop_spec env s.db.disk.rows.length files 0 hclean hrun
      revert hv
      generalize verifyLoop env _ 0 files _ = r
      intro hv
      have hiff := verified_iff hkey hfiles (Nat.not_lt.mp hlen)
      cases hv with
      | failed hin hno =>
          exact habort _ hin fun hf db hout =>
            hno hf _ ⟨rfl, hiff.mpr (outcome_iff.mp hout).2.1⟩
      | done hg hrun =>
          obtain ⟨rfl, hver⟩ := hg
          dsimp only
          rw [Int.toNat_natCast]
          have hsub : (files.drop s.db.disk.rows.length).Sublist files := List.drop_sublist _ _
          have ha := applyLoop_spec env (files.drop s.db.disk.rows.length)
            (fun m hm => hclean m (hsub.subset hm))
            ⟨by rw [Verified, Nat.sub_zero] at hver; exact hver.2, hfiles.sublist (hsub.map _)⟩ hrun
          revert ha
          generalize applyLoop env _ _ = r
          intro ha
          cases ha with
          | failed hin hno =>
              exact habort _ hin fun hf db hout => hno hf db (outcome_iff.mp hout).2.2
          | done happ hrun =>
              dsimp only
              rcases dbCommit_running hrun env.commit with
                ⟨u, hu, hready, hdisk⟩ | ⟨u, hu, hin, hno⟩
              · rw [hu]
                dsimp only
                rw [if_neg (by decide)]
                refine .done ?_ hready
                rw [hdisk]
                exact outcome_iff.mpr ⟨Nat.not_lt.mp hlen, hiff.mp hver, happ⟩
              · rw [hu]
                dsimp only
                rw [if_pos (by decide)]
                exact habort _ hin fun hf => absurd hf.commit hno

/-! ## `migrate_run` -/

theorem clean_of_isMigration {e : DirEntry} {m : Migration} (h : IsMigration e m) : Clean m :=
  ⟨migrationVersion_pos h.version, h.name ▸ e.noNul, h.noNul⟩

theorem clean_of_reads {entries : List DirEntry} {files : List Migration}
    (h : Reads entries files) : ∀ m ∈ files, Clean m := by
  intro m hm
  obtain ⟨e, he⟩ := h.isMigration hm
  exact clean_of_isMigration he

/-- A directory that holds these files. -/
theorem migrateRun_reads {entries : List DirEntry} {files : List Migration}
    (h : Reads entries files) (env : Env U) (s : State (Store U)) :
    migrateRun env (.listed entries false false) s = applyMigrations env files s := by
  unfold migrateRun
  dsimp only
  rw [scanLoop_reads.mpr h]
  rfl

/-- One that holds none: too many, too large, or not all of them migrations. -/
theorem migrateRun_noReads {entries : List DirEntry} (h : ∀ files, ¬ Reads entries files)
    (env : Env U) (s : State (Store U)) :
    migrateRun env (.listed entries false false) s = (s, -1) := by
  unfold migrateRun
  dsimp only
  cases hscan : scanLoop false SCAN_MAX entries [] 0 with
  | none => rfl
  | some files => exact absurd (scanLoop_reads.mp hscan) (h files)

/-- A recorded file was edited or is gone, or a file was put below a recorded
    one. -/
inductive Tampered (rows : List Row) (files : List Migration) : Prop
  | changed (row : Row) (h : row ∈ rows) (hno : row ∉ files.map Migration.row)
  | inserted (m : Migration) (h : m ∈ files) (hno : lookup rows m.version = none)
      (row : Row) (hrow : row ∈ rows) (hlt : (m.version : Int) < row.version)

/-- Over tampered files no run is for any database. -/
theorem Tampered.not_outcome {compile : Bytes → Store U → Compiled U}
    {files : List Migration} {before : Store U} (h : Tampered before.rows files)
    (hsorted : Sorted Migration.version files) (after : Store U) :
    ¬ Outcome compile files before after := by
  rintro ⟨old, new, rfl, hperm, -⟩
  cases h with
  | changed row h hno =>
      refine hno ?_
      rw [List.map_append]
      exact List.mem_append_left _ (hperm.mem_iff.mp h)
  | inserted m h hno row hrow hlt =>
      obtain ⟨m', hm', rfl⟩ := List.mem_map.mp (hperm.mem_iff.mp hrow)
      rw [row_version, Int.ofNat_lt] at hlt
      rcases List.mem_append.mp h with hold | hnew
      · exact lookup_none.mp hno _ (hperm.mem_iff.mpr (List.mem_map_of_mem hold)) rfl
      · -- the files behind the recorded ones have larger versions
        have := (List.pairwise_append.mp hsorted).2.2 m' hm' m hnew
        omega

/-- On success every file is recorded, and the table exists. -/
theorem Outcome.rows {compile : Bytes → Store U → Compiled U} {files : List Migration}
    {before after : Store U} (h : Outcome compile files before after) :
    after.rows.Perm (files.map Migration.row) := by
  obtain ⟨old, new, rfl, hperm, happ⟩ := h
  rw [happ.rows, List.map_append]
  exact hperm.append_right _

theorem Applied.created {compile : Bytes → Store U → Compiled U} {ms : List Migration}
    {db db' : Store U} (h : Applied compile ms db db') (hdb : created db = db) :
    created db' = db' := by
  induction h with
  | nil db => exact hdb
  | cons hm _ ih => exact ih rfl

/-- Over files that are all recorded a run changes nothing. -/
theorem Outcome.again {compile compile' : Bytes → Store U → Compiled U}
    {files : List Migration} {before db after : Store U}
    (h : Outcome compile files before db) :
    Outcome compile' files db after ↔ after = db := by
  have hcreated : created db = db := by
    obtain ⟨old, new, -, -, happ⟩ := h
    exact Applied.created happ rfl
  have hlen : db.rows.length = files.length := by
    rw [h.rows.length_eq, List.length_map]
  rw [outcome_iff, hlen, List.take_length, List.drop_length, hcreated]
  constructor
  · rintro ⟨-, -, happ⟩
    cases happ
    rfl
  · rintro rfl
    exact ⟨Nat.le_refl _, h.rows, .nil _⟩

/-- **Migrations are exact, ordered, atomic and idempotent.**

    `migrate_run` succeeds exactly when the directory holds files that it can
    take (`Reads`) and the run is for some database (`Outcome`), and then that
    is the database it leaves.  When it fails, the disk is as before.  Run
    again over the same files, listed in any order, it succeeds and changes
    nothing; over tampered files it fails. -/
theorem migrations_exact {s : State (Store U)} (hs : Ready s)
    (hkey : PrimaryKey s.db.disk.rows) (hcount : s.db.disk.rows.length < 2 ^ 31)
    (env : Env U) (entries : List DirEntry) :
    let r := migrateRun env (.listed entries false false) s
    (Fine env → (r.2 = 0 ↔
        ∃ files db, Reads entries files ∧ Outcome env.compile files s.db.disk db))
      ∧ (r.2 = 0 → ∃ files, Reads entries files
          ∧ Outcome env.compile files s.db.disk r.1.db.disk
          ∧ r.1.db.disk.rows.Perm (files.map Migration.row)
          ∧ ∀ env' entries', Fine env' → Reads entries' files →
              let r' := migrateRun env' (.listed entries' false false) r.1
              r'.2 = 0 ∧ r'.1.db.disk = r.1.db.disk)
      ∧ (r.2 ≠ 0 → r.1.db.disk = s.db.disk)
      ∧ (∀ files, Reads entries files → Tampered s.db.disk.rows files → r.2 ≠ 0) := by
  intro r
  by_cases hreads : ∃ files, Reads entries files
  swap
  · -- the directory is refused before the database is touched
    have hno : ∀ files, ¬ Reads entries files := fun files h => hreads ⟨files, h⟩
    have hr : r = (s, -1) := migrateRun_noReads hno env s
    rw [hr]
    refine ⟨fun _ => ⟨fun h => (nomatch h), ?_⟩, fun h => (nomatch h), fun _ => rfl, ?_⟩
    · rintro ⟨files, db, h, -⟩
      exact absurd h (hno files)
    · intro files h
      exact absurd h (hno files)
  obtain ⟨files, hfiles⟩ := hreads
  -- a directory holds one sorted list of files
  have huniq : ∀ files', Reads entries files' → files' = files := fun files' h =>
    Option.some.inj ((scanLoop_reads.mpr h).symm.trans (scanLoop_reads.mpr hfiles))
  have hspec : RunSpec env (Outcome env.compile files s.db.disk) s.db.disk r := by
    rw [show r = applyMigrations env files s from migrateRun_reads hfiles env s]
    exact applyMigrations_spec env hs (clean_of_reads hfiles) hfiles.sorted.nodup hkey hcount
  revert hspec
  generalize r = r
  intro hspec
  cases hspec with
  | @done t h ht =>
      refine ⟨fun _ => ⟨fun _ => ⟨files, _, hfiles, h⟩, fun _ => rfl⟩, fun _ => ?_,
        fun hne => absurd rfl hne, ?_⟩
      · refine ⟨files, hfiles, h, h.rows, ?_⟩
        intro env' entries' hf' hfiles'
        have hlen : t.db.disk.rows.length < 2 ^ 31 := by
          rw [h.rows.length_eq, List.length_map]
          obtain ⟨-, ms, hms, hp⟩ := hfiles
          have hc := hms.count
          rw [hp.length_eq]
          exact Nat.lt_of_le_of_lt hc (by decide)
        have hkey' : PrimaryKey t.db.disk.rows :=
          (h.rows.map Row.version).nodup_iff.mpr (primaryKey_files hfiles.sorted.nodup)
        have hspec := applyMigrations_spec env' ht (clean_of_reads hfiles') hfiles'.sorted.nodup hkey' hlen
        dsimp only
        rw [migrateRun_reads hfiles' env' t]
        revert hspec
        generalize applyMigrations env' files t = r
        intro hspec
        cases hspec with
        | done h' _ => exact ⟨rfl, h.again.mp h'⟩
        | failed _ hno => exact absurd (h.again.mpr rfl) (hno hf' t.db.disk)
      · intro files' hfiles' htamper
        obtain rfl := huniq files' hfiles'
        exact absurd h (htamper.not_outcome hfiles'.sorted _)
  | failed hdisk hno =>
      refine ⟨fun hf => ⟨fun h => (nomatch h), ?_⟩, fun h => (nomatch h), fun _ => hdisk,
        fun _ _ _ h => (nomatch h)⟩
      rintro ⟨files', db, hfiles', hout⟩
      obtain rfl := huniq files' hfiles'
      exact absurd hout (hno hf db)

/-! ### A run, and a run past a limit -/

/-- SQLite refuses nothing; every script is one `;` after which a counter moves. -/
def countingEnv : Env Nat where
  lock := .acquired
  begin := {}
  commit := {}
  abort := {}
  refuse _ := none
  compile _ _ := .ok (some ⟨.done (· + 1), true⟩) 1

/-- A connection to a database, nothing going on. -/
def atRest (db : Store Nat) : State (Store Nat) :=
  ⟨⟨db, none⟩, true, 0, 0, -1, .free, false, none⟩

/-- `NNN__a.sql`, holding one `;`. -/
def numberedName (n : Nat) : Bytes :=
  [UInt8.ofNat (0x30 + n / 100), UInt8.ofNat (0x30 + n / 10 % 10), UInt8.ofNat (0x30 + n % 10)]
    ++ lit "__a.sql"

def numbered (n : Nat) : DirEntry :=
  if h : (0 : Byte) ∉ numberedName n then ⟨numberedName n, h, some ⟨true, lit ";"⟩⟩
  else ⟨[], List.not_mem_nil, none⟩

def numberedFile (n : Nat) : Migration := ⟨n, numberedName n, lit ";"⟩

/-- Two files, the second one listed first, the first one applied before. -/
theorem migrations_exact_two :
    (migrateRun countingEnv (.listed [numbered 102, numbered 101] false false)
      (atRest ⟨7, some [(numberedFile 101).row]⟩)).2 = 0 := by
  have h := migrations_exact (s := atRest ⟨7, some [(numberedFile 101).row]⟩)
    ⟨rfl, rfl, rfl, rfl, rfl⟩ (List.nodup_singleton _) (by decide +kernel) countingEnv
    [numbered 102, numbered 101]
  refine (h.1 ⟨rfl, rfl, rfl, fun _ => rfl⟩).mpr
    ⟨[numberedFile 101, numberedFile 102],
      ⟨8, some [(numberedFile 101).row, (numberedFile 102).row]⟩, ?_, ?_⟩
  · exact scanLoop_reads.mp (by decide +kernel)
  · refine ⟨[numberedFile 101], [numberedFile 102], rfl, List.Perm.refl _, ?_⟩
    exact .cons ⟨1, by decide, .stmt (by decide +kernel) rfl (by decide) (.done _)⟩ (.nil _)

/-- Scripts of one statement each run one after the other. -/
theorem applied_counting : ∀ (ms : List Migration), (∀ m ∈ ms, m.sql = lit ";") →
    ∀ db, ∃ db', Applied countingEnv.compile ms db db' := by
  intro ms
  induction ms with
  | nil =>
      intro _ db
      exact ⟨db, .nil db⟩
  | cons m ms ih =>
      intro h db
      obtain ⟨hm, hms⟩ := List.forall_mem_cons.mp h
      obtain ⟨db', happ⟩ := ih hms (record { db with user := db.user + 1 } m.row)
      refine ⟨db', .cons ⟨1, by decide, ?_⟩ happ⟩
      rw [hm]
      exact .stmt (by decide +kernel) rfl (by decide) (.done _)

/-- 129 files of distinct versions whose scripts all run, over no recorded rows:
    `migrate_run` refuses them, one more than `MIGRATE_MAX`. -/
theorem refuses_too_many :
    ∃ files : List Migration,
      List.Forall₂ IsMigration ((List.range 129).map fun n => numbered (101 + n)) files
        ∧ Sorted Migration.version files
        ∧ (∃ db, Outcome countingEnv.compile files ⟨7, none⟩ db)
        ∧ (migrateRun countingEnv
            (.listed ((List.range 129).map fun n => numbered (101 + n)) false false)
            (atRest ⟨7, none⟩)).2 = -1 := by
  refine ⟨(List.range 129).map fun n => numberedFile (101 + n), ?_, ?_, ?_, ?_⟩
  · decide +kernel
  · decide +kernel
  · obtain ⟨db, happ⟩ := applied_counting
      ((List.range 129).map fun n => numberedFile (101 + n)) (fun m hm => by
        obtain ⟨n, -, rfl⟩ := List.mem_map.mp hm
        rfl) (created ⟨7, none⟩)
    exact ⟨db, [], _, rfl, List.Perm.refl _, happ⟩
  · decide +kernel

end MigrateExact

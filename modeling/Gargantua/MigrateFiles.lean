import Mathlib.Algebra.BigOperators.Group.List.Basic
import Mathlib.Data.List.Perm.Basic
import Gargantua.Migrate

/-! # The directory of migrations

    The directory loop inserts each file into an array at its version's place.
    Whatever order `readdir` yields, the array it hands over is the one sorted
    list of the directory's migrations (`scanLoop_iff`); it hands over nothing
    when a file is not a migration, when two have one version, or when a limit
    is passed. -/

namespace MigrateFiles

open CString SortedInsert Migrate

/-- The entry is this migration: a valid name, and a readable file within the
    size of one. -/
structure IsMigration (e : DirEntry) (m : Migration) : Prop where
  version : migrationVersion e.name = some m.version
  name : m.name = e.name
  file : ∃ f, e.file = some f ∧ f.regular = true ∧ f.content = m.sql
  size : 0 < m.sql.length ∧ m.sql.length ≤ MIGRATE_FILE_MAX
  noNul : (0 : Byte) ∉ m.sql

/-- The digits behind the first only make the version larger. -/
theorem versionDigits_le : ∀ (n value : Nat) (s : Bytes) {version : Nat} {rest : Bytes},
    versionDigits n value s = some (version, rest) → value ≤ version := by
  intro n
  induction n with
  | zero =>
      intro value s version rest h
      rw [versionDigits] at h
      cases h
      exact Nat.le_refl _
  | succ n ih =>
      intro value s version rest h
      cases s with
      | nil =>
          have hend : versionDigits (n + 1) value [] = some (value, []) := rfl
          rw [hend] at h
          cases h
          exact Nat.le_refl _
      | cons c s =>
          rw [versionDigits] at h
          split at h
          · dsimp only at h
            split at h
            · exact nomatch h
            · have := ih _ _ h
              omega
          · cases h
            exact Nat.le_refl _

/-- A version is not zero: its first digit is not. -/
theorem migrationVersion_pos {name : Bytes} {version : Nat}
    (h : migrationVersion name = some version) : 0 < version := by
  unfold migrationVersion at h
  split at h
  · exact nomatch h
  rename_i hfirst
  cases name with
  | nil => exact absurd rfl hfirst
  | cons c s =>
      have hc : 0x31 ≤ c ∧ c ≤ 0x39 := by simpa using hfirst
      have hdigit : isDigit c = true := by
        rw [isDigit, Bool.and_eq_true, decide_eq_true_eq, decide_eq_true_eq]
        exact ⟨UInt8.le_trans (by decide) hc.1, hc.2⟩
      have hpos : 0 < c.toNat - 48 := by
        have := UInt8.le_iff_toNat_le.mp hc.1
        have h31 : (0x31 : Byte).toNat = 49 := rfl
        omega
      cases hd : versionDigits 10 0 (c :: s) with
      | none =>
          rw [hd] at h
          exact nomatch h
      | some p =>
          obtain ⟨v, rest⟩ := p
          rw [hd] at h
          dsimp only at h
          repeat' split at h
          · exact nomatch h
          · exact nomatch h
          · exact nomatch h
          · cases h
            rw [versionDigits, if_pos hdigit] at hd
            dsimp only at hd
            split at hd
            · exact nomatch hd
            · have := versionDigits_le _ _ _ hd
              omega

/-- The bytes of all files together. -/
def totalSize (ms : List Migration) : Nat := (ms.map fun m => m.sql.length).sum

theorem readSql_iff {file : Option File} {total : Nat} {sql : Bytes}
    (htotal : total ≤ MIGRATE_TOTAL_MAX) :
    readSql file total = some sql ↔
      (∃ f, file = some f ∧ f.regular = true ∧ f.content = sql)
        ∧ (0 < sql.length ∧ sql.length ≤ MIGRATE_FILE_MAX)
        ∧ (0 : Byte) ∉ sql ∧ total + sql.length ≤ MIGRATE_TOTAL_MAX := by
  unfold readSql
  cases file with
  | none =>
      constructor
      · intro h
        exact nomatch h
      · rintro ⟨⟨f, hf, -⟩, -⟩
        exact nomatch hf
  | some f =>
      dsimp only
      constructor
      · intro h
        split at h
        · rename_i hc
          obtain ⟨h1, h2, h3, h4, h5⟩ := hc
          obtain rfl := Option.some.inj h
          exact ⟨⟨f, rfl, h1, rfl⟩, ⟨h2, h3⟩, h5, by omega⟩
        · exact nomatch h
      · rintro ⟨⟨g, hg, h1, rfl⟩, ⟨h2, h3⟩, h5, h4⟩
        obtain rfl := Option.some.inj hg
        exact if_pos ⟨h1, h2, h3, by omega, h5⟩

/-- An entry is a migration exactly when the loop accepts it as the first one. -/
theorem isMigration_iff {e : DirEntry} {m : Migration} :
    IsMigration e m ↔ migrationVersion e.name = some m.version ∧ m.name = e.name
      ∧ readSql e.file 0 = some m.sql := by
  rw [readSql_iff (Nat.zero_le _)]
  constructor
  · intro h
    refine ⟨h.version, h.name, h.file, h.size, h.noNul, ?_⟩
    rw [Nat.zero_add]
    exact Nat.le_trans h.size.2 (by decide)
  · rintro ⟨hv, hn, hf, hs, hnul, -⟩
    exact ⟨hv, hn, hf, hs, hnul⟩

instance (e : DirEntry) (m : Migration) : Decidable (IsMigration e m) :=
  decidable_of_iff _ isMigration_iff.symm

/-- The entries that the loop reads. -/
def candidates (entries : List DirEntry) : List DirEntry :=
  entries.filter fun e => !isSkipped e.name

/-- The entry determines the migration. -/
theorem IsMigration.unique {e : DirEntry} {m m' : Migration} (h : IsMigration e m) (h' : IsMigration e m') :
    m = m' := by
  obtain ⟨version, name, sql⟩ := m
  obtain ⟨version', name', sql'⟩ := m'
  obtain rfl := Option.some.inj (h.version.symm.trans h'.version)
  obtain rfl : name = e.name := h.name
  obtain rfl : name' = e.name := h'.name
  obtain ⟨f, hf, -, hfc⟩ := h.file
  obtain ⟨g, hg, -, hgc⟩ := h'.file
  rw [hf] at hg
  obtain rfl := Option.some.inj hg
  rw [show sql = f.content from hfc.symm, show sql' = f.content from hgc.symm]

/-- A migration that is read goes to its place, and the entries behind it are scanned. -/
theorem scan_read {files ms out : List Migration} {m : Migration} {pos total : Nat} :
    (Sorted Migration.version out ∧ out.Perm (insertAt files pos m ++ ms)
        ∧ (insertAt files pos m).length + ms.length ≤ MIGRATE_MAX
        ∧ total + m.sql.length + totalSize ms ≤ MIGRATE_TOTAL_MAX)
      ↔ (Sorted Migration.version out ∧ out.Perm (files ++ m :: ms)
        ∧ files.length + (m :: ms).length ≤ MIGRATE_MAX
        ∧ total + totalSize (m :: ms) ≤ MIGRATE_TOTAL_MAX) := by
  have hperm := insertAt_perm files pos m
  have hlen := hperm.length_eq
  have hmiddle : (insertAt files pos m ++ ms).Perm (files ++ m :: ms) :=
    (hperm.append_right ms).trans List.perm_middle.symm
  rw [List.length_cons] at hlen
  rw [List.length_cons, totalSize, totalSize, List.map_cons, List.sum_cons, hlen]
  refine and_congr_right fun _ => and_congr ⟨fun h => h.trans hmiddle, fun h => h.trans hmiddle.symm⟩ ?_
  refine and_congr ?_ ?_
  · omega
  · rw [Nat.add_assoc]

/-- **The directory loop**, with an array already filled. -/
theorem scanLoop_iff {readError : Bool} {out : List Migration} :
    ∀ {scan : Nat} {entries : List DirEntry} {files : List Migration} {total : Nat},
      Sorted Migration.version files → total ≤ MIGRATE_TOTAL_MAX →
      files.length ≤ MIGRATE_MAX →
      (scanLoop readError scan entries files total = some out ↔
        readError = false ∧ entries.length < scan
          ∧ ∃ ms, List.Forall₂ IsMigration (candidates entries) ms
            ∧ Sorted Migration.version out ∧ out.Perm (files ++ ms)
            ∧ files.length + ms.length ≤ MIGRATE_MAX
            ∧ total + totalSize ms ≤ MIGRATE_TOTAL_MAX) := by
  intro scan
  induction scan with
  | zero =>
      intro entries files total _ _ _
      constructor
      · intro h
        exact nomatch h
      · rintro ⟨-, h, -⟩
        exact absurd h (Nat.not_lt_zero _)
  | succ scan ih =>
      intro entries files total hs htotal hlen
      cases entries with
      | nil =>
          rw [scanLoop]
          constructor
          · intro h
            cases readError with
            | true => exact nomatch h
            | false =>
                obtain rfl := Option.some.inj h
                exact ⟨rfl, Nat.succ_pos scan, [], List.Forall₂.nil, hs,
                  by rw [List.append_nil], hlen, htotal⟩
          · rintro ⟨rfl, -, ms, hms, hout, hperm, -⟩
            obtain rfl := List.forall₂_nil_left_iff.mp hms
            rw [List.append_nil] at hperm
            rw [hout.eq_of_perm hs hperm]
            rfl
      | cons e entries =>
          rw [scanLoop]
          by_cases hskip : isSkipped e.name = true
          · have hcand : candidates (e :: entries) = candidates entries :=
              List.filter_cons_of_neg (by rw [hskip]; exact Bool.false_ne_true)
            rw [if_pos hskip, ih hs htotal hlen, hcand, List.length_cons,
              Nat.add_lt_add_iff_right]
          · have hcand : candidates (e :: entries) = e :: candidates entries :=
              List.filter_cons_of_pos (by simpa using hskip)
            rw [if_neg hskip, hcand, List.length_cons, Nat.add_lt_add_iff_right]
            -- what a list of migrations for the entries says about this one
            have hhead : ∀ {ms}, List.Forall₂ IsMigration (e :: candidates entries) ms →
                ∃ m ms', ms = m :: ms' ∧ IsMigration e m
                  ∧ List.Forall₂ IsMigration (candidates entries) ms' := by
              intro ms hms
              obtain ⟨m, ms', hm, hms', rfl⟩ := List.forall₂_cons_left_iff.mp hms
              exact ⟨m, ms', rfl, hm, hms'⟩
            cases hv : migrationVersion e.name with
            | none =>
                constructor
                · intro h
                  exact nomatch h
                · rintro ⟨-, -, ms, hms, -⟩
                  obtain ⟨m, ms', -, hm, -⟩ := hhead hms
                  rw [hm.version] at hv
                  exact nomatch hv
            | some version =>
                dsimp only
                by_cases hfull : files.length ≥ MIGRATE_MAX
                · rw [if_pos hfull]
                  constructor
                  · intro h
                    exact nomatch h
                  · rintro ⟨-, -, ms, hms, -, -, hcount, -⟩
                    obtain ⟨m, ms', rfl, -, -⟩ := hhead hms
                    rw [List.length_cons] at hcount
                    omega
                rw [if_neg hfull]
                by_cases htaken : taken Migration.version files version
                    (insertPos Migration.version files version files.length) = true
                · rw [if_pos htaken]
                  constructor
                  · intro h
                    exact nomatch h
                  · -- two files of one version have no strictly sorted order
                    rintro ⟨-, -, ms, hms, hout, hperm, -⟩
                    obtain ⟨m, ms', rfl, hm, -⟩ := hhead hms
                    obtain rfl := Option.some.inj (hv.symm.trans hm.version)
                    have hnodup := (hperm.map Migration.version).nodup_iff.mp hout.nodup
                    rw [List.map_append, List.nodup_append] at hnodup
                    exact absurd rfl (hnodup.2.2 _ ((taken_iff hs _).mp htaken) _
                      (List.mem_map_of_mem List.mem_cons_self))
                rw [if_neg htaken]
                have hnew : version ∉ files.map Migration.version :=
                  fun h => htaken ((taken_iff hs version).mpr h)
                cases hsql : readSql e.file total with
                | none =>
                    constructor
                    · intro h
                      exact nomatch h
                    · rintro ⟨-, -, ms, hms, -, -, -, hsize⟩
                      obtain ⟨m, ms', rfl, hm, -⟩ := hhead hms
                      rw [totalSize, List.map_cons, List.sum_cons] at hsize
                      have := (readSql_iff htotal).mpr
                        ⟨hm.file, hm.size, hm.noNul, by omega⟩
                      rw [hsql] at this
                      exact nomatch this
                | some sql =>
                    obtain ⟨hfile, hsize, hnul, htot⟩ := (readSql_iff htotal).mp hsql
                    have hm : IsMigration e ⟨version, e.name, sql⟩ :=
                      ⟨hv, rfl, hfile, hsize, hnul⟩
                    have hsorted : Sorted Migration.version (insertAt files
                        (insertPos Migration.version files version files.length)
                        ⟨version, e.name, sql⟩) := insertAt_sorted hs rfl hnew
                    have hlen' := (insertAt_perm files
                      (insertPos Migration.version files version files.length)
                      (⟨version, e.name, sql⟩ : Migration)).length_eq
                    rw [List.length_cons] at hlen'
                    dsimp only
                    rw [ih hsorted htot (by omega)]
                    constructor
                    · rintro ⟨h1, h2, ms, hms, hrest⟩
                      exact ⟨h1, h2, ⟨version, e.name, sql⟩ :: ms, List.Forall₂.cons hm hms,
                        scan_read.mp hrest⟩
                    · rintro ⟨h1, h2, ms, hms, hrest⟩
                      obtain ⟨m, ms', rfl, hm', hms'⟩ := hhead hms
                      obtain rfl := hm'.unique hm
                      exact ⟨h1, h2, ms', hms', scan_read.mpr hrest⟩

/-- The directory holds these migrations, in the order `readdir` yields them, and
    stays within the limits. -/
structure Readable (entries : List DirEntry) (ms : List Migration) : Prop where
  entries_len : entries.length < SCAN_MAX
  files : List.Forall₂ IsMigration (candidates entries) ms
  count : ms.length ≤ MIGRATE_MAX
  size : totalSize ms ≤ MIGRATE_TOTAL_MAX
  distinct : (ms.map Migration.version).Nodup

/-- The directory, in whatever order it is listed, holds these files; they stand
    sorted by version. -/
structure Reads (entries : List DirEntry) (files : List Migration) : Prop where
  sorted : Sorted Migration.version files
  readable : ∃ ms, Readable entries ms ∧ files.Perm ms

/-- **The directory loop** yields what the directory holds, sorted by version. -/
theorem scanLoop_reads {entries : List DirEntry} {files : List Migration} :
    scanLoop false SCAN_MAX entries [] 0 = some files ↔ Reads entries files := by
  rw [scanLoop_iff List.Pairwise.nil (Nat.zero_le _) (Nat.zero_le _)]
  constructor
  · rintro ⟨-, hlen, ms, hms, hsorted, hperm, hcount, hsize⟩
    rw [List.length_nil, Nat.zero_add] at hcount
    rw [Nat.zero_add] at hsize
    rw [List.nil_append] at hperm
    refine ⟨hsorted, ms, ⟨hlen, hms, hcount, hsize, ?_⟩, hperm⟩
    exact (hperm.map Migration.version).nodup_iff.mp hsorted.nodup
  · rintro ⟨hsorted, ms, ⟨hlen, hms, hcount, hsize, -⟩, hperm⟩
    refine ⟨rfl, hlen, ms, hms, hsorted, hperm, ?_, ?_⟩
    · rw [List.length_nil, Nat.zero_add]
      exact hcount
    · rw [Nat.zero_add]
      exact hsize

/-- A directory listed in another order holds the same files. -/
theorem Reads.of_perm {entries entries' : List DirEntry} {files : List Migration}
    (h : Reads entries files) (hperm : entries'.Perm entries) : Reads entries' files := by
  obtain ⟨hsorted, ms, hms, hp⟩ := h
  have hcand : (candidates entries').Perm (candidates entries) := hperm.filter _
  obtain ⟨ms', hms', hp'⟩ := List.perm_comp_forall₂ hcand hms.files
  refine ⟨hsorted, ms', ⟨?_, hms', ?_, ?_, ?_⟩, hp.trans hp'.symm⟩
  · rw [hperm.length_eq]
    exact hms.entries_len
  · rw [hp'.length_eq]
    exact hms.count
  · rw [totalSize, (hp'.map fun m => m.sql.length).sum_eq]
    exact hms.size
  · exact (hp'.map Migration.version).nodup_iff.mpr hms.distinct

/-- **The order in which `readdir` yields the entries does not matter.** -/
theorem scanLoop_perm {entries entries' : List DirEntry} (h : entries'.Perm entries) :
    scanLoop false SCAN_MAX entries' [] 0 = scanLoop false SCAN_MAX entries [] 0 := by
  refine Option.ext fun files => ?_
  rw [scanLoop_reads, scanLoop_reads]
  exact ⟨fun hr => hr.of_perm h.symm, fun hr => hr.of_perm h⟩

/-- Every file that a directory holds is a migration of it. -/
theorem Reads.isMigration {entries : List DirEntry} {files : List Migration}
    (h : Reads entries files) {m : Migration} (hm : m ∈ files) : ∃ e, IsMigration e m := by
  obtain ⟨-, ms, hms, hp⟩ := h
  obtain ⟨i, hi⟩ := List.getElem?_of_mem (hp.mem_iff.mp hm)
  obtain ⟨hil, hget⟩ := List.getElem?_eq_some_iff.mp hi
  have hlen := hms.files.length_eq
  refine ⟨(candidates entries).get ⟨i, by omega⟩, ?_⟩
  rw [← hget]
  exact List.Forall₂.get hms.files _ hil

end MigrateFiles

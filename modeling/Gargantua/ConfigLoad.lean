import Mathlib.Data.List.Nodup
import Gargantua.RouteGenerator
import Gargantua.Lib.Separated

/-! # Loading the configuration (`src/core/config.c`)

    The file is read with `fgets`, into a buffer of `CONFIG_LINE_MAX` bytes, and a
    line that is not blank has to be `key = value`.  Whether the bound on the
    lines is reached is looked at after another line was read; if that line is
    the last one and does not end, the file is taken without it.  Apart from
    that, loading is all or nothing (`all_or_nothing_iff`). -/

namespace ConfigLoad

open CString Separated
open RouteGenerator (isSpace)

/-- `CONFIG_MAX_KEYS`, `CONFIG_KEY_LEN`, `CONFIG_VALUE_LEN`, `CONFIG_LINE_MAX` and
    `CONFIG_ENV_MAX`. -/
abbrev CONFIG_MAX_KEYS : Nat := 64
abbrev CONFIG_KEY_LEN : Nat := 64
abbrev CONFIG_VALUE_LEN : Nat := 256
abbrev CONFIG_LINE_MAX : Nat := 512
abbrev CONFIG_ENV_MAX : Nat := 96

/-- `'\n'`, `'#'` and `'='`. -/
abbrev LF : Byte := 0x0A
abbrev HASH : Byte := 0x23
abbrev EQUALS : Byte := 0x3D

/-! ## The standard library -/

/-- What a `FILE *` has still to give, and its end-of-file flag. -/
structure Stream where
  rest : Bytes
  eof : Bool := false
  deriving Repr, DecidableEq

/-- The loop of `fgets`, with the room left: what it stores, what is behind it, and
    whether it met the end. -/
def fgetsLoop : Nat → Bytes → Bytes × Bytes × Bool
  | 0, s => ([], s, false)
  | _ + 1, [] => ([], [], true)
  | n + 1, c :: s =>
      if c = LF then ([c], s, false)
      else
        let r := fgetsLoop n s
        (c :: r.1, r.2)

/-- `fgets(line, size, f)`. -/
def fgets (size : Nat) (f : Stream) : Option Bytes × Stream :=
  match fgetsLoop (size - 1) f.rest with
  | ([], rest, eof) => (none, ⟨rest, f.eof || eof⟩)
  | (c :: line, rest, eof) => (some (c :: line), ⟨rest, f.eof || eof⟩)

/-! ## Lines -/

/-- A loop of `trim_spaces`, with its guard. -/
def dropSpaces : Nat → Bytes → Bytes
  | 0, s => s
  | _ + 1, [] => []
  | guard + 1, c :: s => if isSpace c then dropSpaces guard s else c :: s

/-- `trim_spaces`. -/
def trimSpaces (text : Bytes) : Bytes :=
  (dropSpaces CONFIG_LINE_MAX (dropSpaces CONFIG_LINE_MAX text).reverse).reverse

/-- `Entry`. -/
structure Entry where
  key : Bytes
  value : Bytes
  deriving Repr, DecidableEq

/-- `store_entry`: the entries behind it, where it returns `0`. -/
def storeEntry (entries : List Entry) (e : Entry) : Option (List Entry) :=
  if e.key = [] ∨ e.key.length ≥ CONFIG_KEY_LEN ∨ e.value.length ≥ CONFIG_VALUE_LEN then none
  else if e.key ∈ entries.map (·.key) then none
  else if entries.length ≥ CONFIG_MAX_KEYS then none
  else some (entries ++ [e])

/-- The locals of `config_load`, the entries, and what it printed. -/
structure Loading where
  file : Stream
  lineno : Nat := 0
  bad : Nat := 0
  entries : List Entry := []
  stderr : List Bytes := []
  deriving Repr, DecidableEq

/-- The line without its comment, and without blanks around it. -/
def lineText (line : Bytes) : Bytes := trimSpaces (line.takeWhile (· != HASH))

/-- What stands on both sides of the first `=`. -/
def entryOf (text : Bytes) : Option Entry :=
  match text.dropWhile (· != EQUALS) with
  | [] => none
  | _ :: value => some ⟨trimSpaces (text.takeWhile (· != EQUALS)), trimSpaces value⟩

/-- The loop body of `config_load`, for a line that fits. -/
def takeLine (path : Bytes) (st : Loading) (line : Bytes) : Loading :=
  if lineText line = [] then st
  else
    match entryOf (lineText line) with
    | none =>
        { st with
          bad := st.bad + 1
          stderr := st.stderr ++ [path ++ lit ":" ++ lit (toString st.lineno)
            ++ lit ": expected 'key = value'\n"] }
    | some e =>
        match storeEntry st.entries e with
        | none => { st with bad := st.bad + 1 }
        | some entries => { st with entries := entries }

/-- The loop of `config_load`, with the lines left before its bound
    (`CONFIG_MAX_KEYS * 8 - lineno`).  The bound is tested behind `fgets`. -/
def loadLoop (path : Bytes) : Nat → Loading → Loading
  | 0, st => { st with file := (fgets CONFIG_LINE_MAX st.file).2 }
  | left + 1, st =>
      match fgets CONFIG_LINE_MAX st.file with
      | (none, file) => { st with file := file }
      | (some chunk, file) =>
          let st := { st with file := file, lineno := st.lineno + 1 }
          let line := cstr chunk
          if line.length = CONFIG_LINE_MAX - 1 ∧ line.getLast? ≠ some LF then
            { st with bad := st.bad + 1 }
          else loadLoop path left (takeLine path st line)

/-! ## `config_load` and `config_str` -/

/-- A file: its bytes up to where reading ends, whether it ends with an error, and
    whether `fclose` fails. -/
structure File where
  content : Bytes
  readError : Bool
  closeFails : Bool
  deriving Repr, DecidableEq

/-- What `fopen` gives: `NULL` with `ENOENT` or with another error, or a file. -/
inductive Opened where
  | missing
  | failed
  | file (f : File)
  deriving Repr, DecidableEq

/-- The environment and the file system. -/
structure Host where
  getenv : Bytes → Option Bytes
  fopen : Bytes → Opened

/-- The path that is loaded: `GARGANTUA_CONFIG`, if it is set. -/
def configPath (host : Host) (path : Bytes) : Bytes :=
  match host.getenv (lit "GARGANTUA_CONFIG") with
  | none => path
  | some override => if override = [] then path else override

/-- What `bad` is at the end. -/
def badAtEnd (st : Loading) (f : File) : Nat :=
  st.bad + (if f.readError ∨ (st.lineno ≥ CONFIG_MAX_KEYS * 8 ∧ st.file.eof = false) then 1 else 0)
    + (if f.closeFails then 1 else 0)

/-- `config_load`: what it returns, and the entries behind it. -/
def configLoad (host : Host) (path : Bytes) : Int × List Entry :=
  match host.fopen (configPath host path) with
  | .missing => (0, [])
  | .failed => (-1, [])
  | .file f =>
      let st := loadLoop (configPath host path) (CONFIG_MAX_KEYS * 8) { file := ⟨f.content, false⟩ }
      if badAtEnd st f ≠ 0 then (-1, []) else (st.entries.length, st.entries)

/-- `env_name`, for a buffer of `cap` bytes. -/
def envName (key : Bytes) (cap : Nat) : Bytes :=
  (key.take (cap - 1)).map fun c =>
    if c = 0x2E then 0x5F else if 0x61 ≤ c ∧ c ≤ 0x7A then c - 0x20 else c

/-- `config_str`. -/
def configStr (host : Host) (entries : List Entry) (key fallback : Bytes) : Bytes :=
  let stored :=
    match entries.find? fun e => e.key = key with
    | none => fallback
    | some e => e.value
  match host.getenv (envName key CONFIG_ENV_MAX) with
  | none => stored
  | some fromEnv => if fromEnv = [] then stored else fromEnv

/-! ## What loading has to do -/

/-- The lines of a file that are not blank without their comments. -/
def meant (lines : List Bytes) : List Bytes := lines.filter fun line => lineText line ≠ []

/-- The entries of lines. -/
def parsed (lines : List Bytes) : List (Option Entry) :=
  (meant lines).map fun line => entryOf (lineText line)

/-- Loading is all or nothing: with a result that is not negative, every line that
    is not blank is stored, under a key of its own, and is what `config_str` finds;
    otherwise the result is `-1` and nothing is stored. -/
structure AllOrNothing (host : Host) (content : Bytes) (r : Int × List Entry) : Prop where
  counted : 0 ≤ r.1 → r.1 = r.2.length
  distinct : 0 ≤ r.1 → (r.2.map (·.key)).Nodup
  stored : 0 ≤ r.1 → parsed (content.splitOn LF) = r.2.map some
  found : 0 ≤ r.1 → ∀ e ∈ r.2, host.getenv (envName e.key CONFIG_ENV_MAX) = none →
    ∀ fallback, configStr host r.2 e.key fallback = e.value
  nothing : r.1 < 0 → r = (-1, [])

/-- Every file with this content is loaded so. -/
def LoadsWhole (content : Bytes) : Prop :=
  ∀ (host : Host) (path : Bytes) (readError closeFails : Bool),
    host.fopen (configPath host path) = .file ⟨content, readError, closeFails⟩ →
      AllOrNothing host content (configLoad host path)

/-- Entries that fit the table. -/
structure Fits (entries : List Entry) : Prop where
  keys : ∀ e ∈ entries, e.key ≠ [] ∧ e.key.length < CONFIG_KEY_LEN
  values : ∀ e ∈ entries, e.value.length < CONFIG_VALUE_LEN
  distinct : (entries.map (·.key)).Nodup
  few : entries.length ≤ CONFIG_MAX_KEYS

/-- Lines that are taken, behind the entries `before`: they fit the buffer, those
    that are not blank are `key = value`, and the entries fit. -/
structure Takes (before : List Entry) (lines : List Bytes) (entries : List Entry) : Prop where
  short : ∀ line ∈ lines, line.length < CONFIG_LINE_MAX - 1
  parsed : parsed lines = entries.map some
  fits : Fits (before ++ entries)

/-- The file ends with one line more than are counted, in a line that is not
    blank and has no line feed, and the lines in front of it are taken. -/
structure Dropped (content : Bytes) : Prop where
  lines : ∃ front last, content.splitOn LF = front ++ [last]
    ∧ front.length = CONFIG_MAX_KEYS * 8 ∧ last.length < CONFIG_LINE_MAX - 1
    ∧ lineText last ≠ [] ∧ ∃ entries, Takes [] front entries

/-! ## The stream -/

/-- A line that fits is read with its line feed. -/
theorem fgetsLoop_line : ∀ {n : Nat} {l : Bytes} (rest : Bytes), LF ∉ l → l.length < n →
    fgetsLoop n (l ++ LF :: rest) = (l ++ [LF], rest, false)
  | 0, _, _, _, hlt => absurd hlt (Nat.not_lt_zero _)
  | _ + 1, [], rest, _, _ => by rw [List.nil_append, fgetsLoop, if_pos rfl, List.nil_append]
  | n + 1, c :: l, rest, hfree, hlt => by
      obtain ⟨hc, hl⟩ := not_or.mp (mt List.mem_cons.mpr hfree)
      rw [List.cons_append, fgetsLoop, if_neg (Ne.symm hc),
        fgetsLoop_line rest hl (Nat.lt_of_succ_lt_succ hlt)]
      rfl

/-- A line that does not fit is cut at the room of the buffer. -/
theorem fgetsLoop_long : ∀ {n : Nat} {l : Bytes} (rest : Bytes), LF ∉ l → n ≤ l.length →
    fgetsLoop n (l ++ rest) = (l.take n, l.drop n ++ rest, false)
  | 0, _, _, _, _ => rfl
  | n + 1, [], _, _, hle => absurd hle (Nat.not_succ_le_zero n)
  | n + 1, c :: l, rest, hfree, hle => by
      obtain ⟨hc, hl⟩ := not_or.mp (mt List.mem_cons.mpr hfree)
      rw [List.cons_append, fgetsLoop, if_neg (Ne.symm hc),
        fgetsLoop_long rest hl (Nat.le_of_succ_le_succ hle)]
      rfl

/-- A last line without a line feed meets the end. -/
theorem fgetsLoop_last : ∀ {n : Nat} {l : Bytes}, LF ∉ l → l.length < n →
    fgetsLoop n l = (l, [], true)
  | 0, _, _, hlt => absurd hlt (Nat.not_lt_zero _)
  | _ + 1, [], _, _ => rfl
  | n + 1, c :: l, hfree, hlt => by
      obtain ⟨hc, hl⟩ := not_or.mp (mt List.mem_cons.mpr hfree)
      rw [fgetsLoop, if_neg (Ne.symm hc), fgetsLoop_last hl (Nat.lt_of_succ_lt_succ hlt)]

section Stream

variable {size : Nat} {l rest : Bytes} {eof : Bool}

theorem fgets_line (hfree : LF ∉ l) (hlt : l.length < size - 1) :
    fgets size ⟨l ++ LF :: rest, eof⟩ = (some (l ++ [LF]), ⟨rest, eof⟩) := by
  rw [fgets, fgetsLoop_line rest hfree hlt]
  cases l <;> simp

theorem fgets_long (hfree : LF ∉ l) (hle : size - 1 ≤ l.length) (hsize : 1 < size) :
    fgets size ⟨l ++ rest, eof⟩ = (some (l.take (size - 1)), ⟨l.drop (size - 1) ++ rest, eof⟩) := by
  rw [fgets, fgetsLoop_long rest hfree hle]
  cases htake : l.take (size - 1) with
  | nil =>
      have hlen := congrArg List.length htake
      rw [List.length_take, List.length_nil] at hlen
      omega
  | cons c line => simp

theorem fgets_last (hfree : LF ∉ l) (hlt : l.length < size - 1) (hne : l ≠ []) :
    fgets size ⟨l, eof⟩ = (some l, ⟨[], true⟩) := by
  rw [fgets, fgetsLoop_last hfree hlt]
  cases l with
  | nil => exact absurd rfl hne
  | cons c line => simp

theorem fgets_end (hsize : 1 < size) : fgets size ⟨[], eof⟩ = (none, ⟨[], true⟩) := by
  rw [fgets, fgetsLoop_last List.not_mem_nil (by rw [List.length_nil]; omega)]
  simp

end Stream

/-! ## Trimming -/

/-- The guard is not met by a text as short. -/
theorem dropSpaces_eq : ∀ {guard : Nat} {s : Bytes}, s.length ≤ guard →
    dropSpaces guard s = s.dropWhile isSpace
  | 0, s, hle => by rw [List.length_eq_zero_iff.mp (Nat.le_zero.mp hle)]; rfl
  | _ + 1, [], _ => rfl
  | guard + 1, c :: s, hle => by
      rw [dropSpaces]
      by_cases hc : isSpace c = true
      · rw [if_pos hc, List.dropWhile_cons_of_pos hc, dropSpaces_eq (Nat.le_of_succ_le_succ hle)]
      · rw [if_neg hc, List.dropWhile_cons_of_neg hc]

theorem trimSpaces_eq {s : Bytes} (hle : s.length ≤ CONFIG_LINE_MAX) :
    trimSpaces s = trim isSpace s := by
  have hdrop : (s.dropWhile isSpace).length ≤ s.length := (List.dropWhile_sublist _).length_le
  rw [trimSpaces, dropSpaces_eq hle, dropSpaces_eq (by rw [List.length_reverse]; omega), trim,
    List.rdropWhile]

/-- Blanks behind a text do not count. -/
theorem trim_append_blank {c : Byte} (hc : isSpace c = true) (s : Bytes) :
    trim isSpace (s ++ [c]) = trim isSpace s := by
  rw [trim, trim]
  by_cases hs : s.dropWhile isSpace = []
  · have hall := List.dropWhile_eq_nil_iff.mp hs
    have hnil : (s ++ [c]).dropWhile isSpace = [] := by
      rw [List.dropWhile_eq_nil_iff]
      intro d hd
      rcases List.mem_append.mp hd with hd | hd
      · exact hall d hd
      · rw [List.mem_singleton.mp hd]
        exact hc
    rw [hs, hnil]
  · rw [List.dropWhile_append, if_neg (by simpa using hs), List.rdropWhile_concat_pos _ _ _ hc]

/-- The text of a line does not depend on its line feed. -/
theorem lineText_lf {l : Bytes} (hlt : l.length < CONFIG_LINE_MAX - 1) :
    lineText (l ++ [LF]) = lineText l := by
  have htake := (List.takeWhile_sublist (· != HASH) (l := l)).length_le
  have hlong : (l ++ [LF]).length ≤ CONFIG_LINE_MAX := by
    rw [List.length_append, List.length_singleton]
    omega
  have htake' := (List.takeWhile_sublist (· != HASH) (l := l ++ [LF])).length_le
  rw [lineText, lineText, trimSpaces_eq (htake'.trans hlong), trimSpaces_eq (by omega)]
  rw [List.takeWhile_append]
  by_cases hhash : (l.takeWhile (· != HASH)).length = l.length
  · rw [if_pos hhash, List.takeWhile_sublist _ |>.eq_of_length hhash]
    exact trim_append_blank (by decide) l
  · rw [if_neg hhash]

/-! ## A line -/

/-- Entries in front of others fit where all of them do. -/
theorem Fits.front {entries more : List Entry} (h : Fits (entries ++ more)) : Fits entries where
  keys := fun e he => h.keys e (List.mem_append_left _ he)
  values := fun e he => h.values e (List.mem_append_left _ he)
  distinct := by
    have hd := h.distinct
    rw [List.map_append] at hd
    exact (List.nodup_append.mp hd).1
  few := by
    have hf := h.few
    rw [List.length_append] at hf
    omega

/-- **`store_entry`** stores an entry where the entries fit with it. -/
theorem storeEntry_some {entries out : List Entry} {e : Entry} (hfits : Fits entries) :
    storeEntry entries e = some out ↔ Fits (entries ++ [e]) ∧ out = entries ++ [e] := by
  rw [storeEntry]
  constructor
  · intro h
    split at h
    · cases h
    rename_i hshape
    split at h
    · cases h
    rename_i hfresh
    split at h
    · cases h
    rename_i hroom
    obtain ⟨hkey, hlens⟩ := not_or.mp hshape
    obtain ⟨hlen, hvalue⟩ := not_or.mp hlens
    refine ⟨⟨?_, ?_, ?_, ?_⟩, (Option.some.inj h).symm⟩
    · intro x hx
      rcases List.mem_append.mp hx with hx | hx
      · exact hfits.keys x hx
      · rw [List.mem_singleton.mp hx]
        exact ⟨hkey, by omega⟩
    · intro x hx
      rcases List.mem_append.mp hx with hx | hx
      · exact hfits.values x hx
      · rw [List.mem_singleton.mp hx]
        omega
    · rw [List.map_append, List.map_singleton, List.nodup_append]
      refine ⟨hfits.distinct, List.nodup_singleton _, ?_⟩
      intro k hk k' hk' heq
      rw [List.mem_singleton.mp hk'] at heq
      exact hfresh (heq ▸ hk)
    · rw [List.length_append, List.length_singleton]
      omega
  · rintro ⟨h, rfl⟩
    have hmem : e ∈ entries ++ [e] := List.mem_append_right _ List.mem_cons_self
    obtain ⟨hkey, hlen⟩ := h.keys e hmem
    have hvalue := h.values e hmem
    have hdistinct := h.distinct
    rw [List.map_append, List.map_singleton, List.nodup_append] at hdistinct
    have hfew := h.few
    rw [List.length_append, List.length_singleton] at hfew
    rw [if_neg (by rw [not_or, not_or]; exact ⟨hkey, by omega, by omega⟩),
      if_neg fun hk => hdistinct.2.2 _ hk _ List.mem_cons_self rfl, if_neg (by omega)]

theorem takeLine_file (path : Bytes) (st : Loading) (line : Bytes) :
    (takeLine path st line).file = st.file := by
  rw [takeLine]
  split
  · rfl
  split
  · rfl
  split <;> rfl

theorem takeLine_lineno (path : Bytes) (st : Loading) (line : Bytes) :
    (takeLine path st line).lineno = st.lineno := by
  rw [takeLine]
  split
  · rfl
  split
  · rfl
  split <;> rfl

/-- What a line that is taken adds: nothing, if it is blank, and its entry otherwise. -/
def Adds (before : List Entry) (line : Bytes) (added : List Entry) : Prop :=
  (lineText line = [] ∧ added = []) ∨
    (lineText line ≠ [] ∧ ∃ e, entryOf (lineText line) = some e ∧ Fits (before ++ [e])
      ∧ added = [e])

/-- **The loop body** counts a line that cannot be taken, and adds what it can. -/
theorem takeLine_iff {path : Bytes} {st : Loading} (hfits : Fits st.entries) {line : Bytes}
    {out : List Entry} :
    (takeLine path st line).bad = 0 ∧ (takeLine path st line).entries = out ↔
      st.bad = 0 ∧ ∃ added, Adds st.entries line added ∧ out = st.entries ++ added := by
  rw [takeLine]
  split
  · rename_i hblank
    constructor
    · rintro ⟨hbad, rfl⟩
      exact ⟨hbad, [], .inl ⟨hblank, rfl⟩, (List.append_nil _).symm⟩
    · rintro ⟨hbad, added, ⟨-, rfl⟩ | ⟨hne, -⟩, rfl⟩
      · exact ⟨hbad, (List.append_nil _).symm⟩
      · exact absurd hblank hne
  rename_i hne
  split
  · rename_i hnone
    constructor
    · rintro ⟨hbad, -⟩
      exact absurd hbad (Nat.succ_ne_zero _)
    · rintro ⟨-, added, ⟨hblank, -⟩ | ⟨-, e, he, -⟩, -⟩
      · exact absurd hblank hne
      · rw [hnone] at he
        cases he
  rename_i e he
  split
  · rename_i hrefused
    constructor
    · rintro ⟨hbad, -⟩
      exact absurd hbad (Nat.succ_ne_zero _)
    · rintro ⟨-, added, ⟨hblank, -⟩ | ⟨-, e', he', hfit, -⟩, -⟩
      · exact absurd hblank hne
      · obtain rfl := Option.some.inj (he.symm.trans he')
        rw [(storeEntry_some hfits).mpr ⟨hfit, rfl⟩] at hrefused
        cases hrefused
  · rename_i entries hstored
    obtain ⟨hfit, rfl⟩ := (storeEntry_some hfits).mp hstored
    constructor
    · rintro ⟨hbad, rfl⟩
      exact ⟨hbad, [e], .inr ⟨hne, e, he, hfit, rfl⟩, rfl⟩
    · rintro ⟨hbad, added, ⟨hblank, -⟩ | ⟨-, e', he', -, rfl⟩, rfl⟩
      · exact absurd hblank hne
      · obtain rfl := Option.some.inj (he.symm.trans he')
        exact ⟨hbad, rfl⟩

/-- A line leaves entries that fit. -/
theorem takeLine_fits {path : Bytes} {st : Loading} (hfits : Fits st.entries) (line : Bytes) :
    Fits (takeLine path st line).entries := by
  rw [takeLine]
  split
  · exact hfits
  split
  · exact hfits
  split
  · exact hfits
  · rename_i entries hstored
    obtain ⟨hfit, rfl⟩ := (storeEntry_some hfits).mp hstored
    exact hfit

theorem adds_lf {before : List Entry} {l : Bytes} {added : List Entry}
    (hlt : l.length < CONFIG_LINE_MAX - 1) : Adds before (l ++ [LF]) added ↔ Adds before l added := by
  rw [Adds, Adds, lineText_lf hlt]

/-! ## The loop -/

theorem Takes.nil {before : List Entry} (h : Fits before) : Takes before [] [] where
  short := by simp
  parsed := rfl
  fits := by rwa [List.append_nil]

/-- The lines in front of others, and the entries they add. -/
theorem takes_cons {before : List Entry} {l : Bytes} {lines : List Bytes} {es : List Entry} :
    Takes before (l :: lines) es ↔ l.length < CONFIG_LINE_MAX - 1 ∧
      ∃ added more, Adds before l added ∧ es = added ++ more ∧ Takes (before ++ added) lines more := by
  constructor
  · rintro ⟨hshort, hparsed, hfits⟩
    obtain ⟨hl, hlines⟩ := List.forall_mem_cons.mp hshort
    refine ⟨hl, ?_⟩
    by_cases hblank : lineText l = []
    · refine ⟨[], es, .inl ⟨hblank, rfl⟩, rfl, hlines, ?_, by rwa [List.append_nil]⟩
      rw [← hparsed, ConfigLoad.parsed, ConfigLoad.parsed, meant, meant,
        List.filter_cons_of_neg (by simp [hblank])]
    · rw [ConfigLoad.parsed, meant, List.filter_cons_of_pos (by simp [hblank]), List.map_cons] at hparsed
      cases es with
      | nil => cases hparsed
      | cons e more =>
          rw [List.map_cons, List.cons.injEq] at hparsed
          have hfits' : Fits ((before ++ [e]) ++ more) := by rwa [List.append_assoc]
          exact ⟨[e], more, .inr ⟨hblank, e, hparsed.1, hfits'.front, rfl⟩, rfl,
            hlines, hparsed.2, hfits'⟩
  · rintro ⟨hl, added, more, hadds, rfl, hlines, hparsed, hfits⟩
    refine ⟨List.forall_mem_cons.mpr ⟨hl, hlines⟩, ?_, by rwa [← List.append_assoc]⟩
    rcases hadds with ⟨hblank, rfl⟩ | ⟨hne, e, he, -, rfl⟩
    · rw [List.nil_append, ← hparsed, ConfigLoad.parsed, ConfigLoad.parsed, meant, meant,
        List.filter_cons_of_neg (by simp [hblank])]
    · rw [ConfigLoad.parsed, meant, List.filter_cons_of_pos (by simp [hne]), List.map_cons, he,
        List.cons_append, List.nil_append, List.map_cons, ← hparsed, ConfigLoad.parsed, meant]

/-- The pieces of a text that is read to its end, with the lines left before the
    bound: one piece more may stand behind the lines that are taken. -/
structure Loads (left : Nat) (before : List Entry) (pieces : List Bytes) (es : List Entry) :
    Prop where
  takes : Takes before (pieces.take left) es
  enough : pieces.length ≤ left + 1
  short : ∀ l ∈ pieces.drop left, l.length < CONFIG_LINE_MAX - 1

theorem loads_cons {left : Nat} {before : List Entry} {l : Bytes} {pieces : List Bytes}
    {es : List Entry} :
    Loads (left + 1) before (l :: pieces) es ↔ l.length < CONFIG_LINE_MAX - 1 ∧
      ∃ added more, Adds before l added ∧ es = added ++ more
        ∧ Loads left (before ++ added) pieces more := by
  constructor
  · rintro ⟨htakes, henough, hshort⟩
    obtain ⟨hl, added, more, hadds, rfl, hmore⟩ := takes_cons.mp htakes
    exact ⟨hl, added, more, hadds, rfl, hmore, Nat.le_of_succ_le_succ henough, hshort⟩
  · rintro ⟨hl, added, more, hadds, rfl, htakes, henough, hshort⟩
    exact ⟨takes_cons.mpr ⟨hl, added, more, hadds, rfl, htakes⟩, Nat.succ_le_succ henough, hshort⟩

theorem loads_nil {left : Nat} {before es : List Entry} :
    Loads left before [] es ↔ Fits before ∧ es = [] := by
  constructor
  · rintro ⟨htakes, -, -⟩
    rw [List.take_nil] at htakes
    have hes : es = [] := List.map_eq_nil_iff.mp htakes.parsed.symm
    have hfits := htakes.fits
    rw [hes, List.append_nil] at hfits
    exact ⟨hfits, hes⟩
  · rintro ⟨hfits, rfl⟩
    refine ⟨?_, Nat.zero_le _, ?_⟩
    · rw [List.take_nil]
      exact .nil hfits
    · simp

/-- What one line adds to entries fits with them. -/
theorem Adds.fits {before added : List Entry} {l : Bytes} (h : Adds before l added)
    (hfits : Fits before) : Fits (before ++ added) := by
  rcases h with ⟨-, rfl⟩ | ⟨-, e, -, hfit, rfl⟩
  · rwa [List.append_nil]
  · exact hfit

/-- The last line of a text. -/
theorem loads_single {left : Nat} {before es : List Entry} {l : Bytes} (hfits : Fits before) :
    Loads (left + 1) before [l] es ↔ l.length < CONFIG_LINE_MAX - 1 ∧ Adds before l es := by
  rw [loads_cons]
  constructor
  · rintro ⟨hl, added, more, hadds, rfl, hmore⟩
    obtain ⟨-, rfl⟩ := loads_nil.mp hmore
    rw [List.append_nil]
    exact ⟨hl, hadds⟩
  · rintro ⟨hl, hadds⟩
    exact ⟨hl, es, [], hadds, (List.append_nil _).symm, loads_nil.mpr ⟨hadds.fits hfits, rfl⟩⟩

/-- Nothing was counted, and if the bound on the lines was met, so was the end. -/
def Clean (st : Loading) : Prop :=
  st.bad = 0 ∧ (CONFIG_MAX_KEYS * 8 ≤ st.lineno → st.file.eof = true)

/-- Behind the last line nothing is left to read. -/
theorem loadLoop_end (path : Bytes) (left : Nat) {st : Loading} (h : st.file.rest = []) :
    loadLoop path left st = { st with file := ⟨[], true⟩ } := by
  obtain ⟨⟨rest, eof⟩, lineno, bad, entries, stderr⟩ := st
  cases h
  cases left with
  | zero => rw [loadLoop, fgets_end (by decide)]
  | succ left => rw [loadLoop, fgets_end (by decide)]

/-- A round over a line that fits. -/
theorem loadLoop_line {path : Bytes} {left : Nat} {st : Loading} {l rest : Bytes}
    (hfree : LF ∉ l) (hnul : 0 ∉ l) (hlt : l.length < CONFIG_LINE_MAX - 1)
    (h : st.file.rest = l ++ LF :: rest) :
    loadLoop path (left + 1) st
      = loadLoop path left (takeLine path
          { st with file := ⟨rest, st.file.eof⟩, lineno := st.lineno + 1 } (l ++ [LF])) := by
  obtain ⟨⟨s, eof⟩, lineno, bad, entries, stderr⟩ := st
  change s = _ at h
  subst h
  have hnul' : 0 ∉ l ++ [LF] := by
    rw [List.mem_append, List.mem_singleton]
    exact not_or.mpr ⟨hnul, by decide⟩
  rw [loadLoop, fgets_line hfree hlt]
  dsimp only
  rw [cstr_eq_self hnul', if_neg (by simp)]

/-- A round over a last line that fits, and does not end. -/
theorem loadLoop_last {path : Bytes} {left : Nat} {st : Loading} {l : Bytes}
    (hfree : LF ∉ l) (hnul : 0 ∉ l) (hlt : l.length < CONFIG_LINE_MAX - 1) (hne : l ≠ [])
    (h : st.file.rest = l) :
    loadLoop path (left + 1) st
      = loadLoop path left (takeLine path
          { st with file := ⟨[], true⟩, lineno := st.lineno + 1 } l) := by
  obtain ⟨⟨s, eof⟩, lineno, bad, entries, stderr⟩ := st
  change s = _ at h
  subst h
  rw [loadLoop, fgets_last hfree hlt hne]
  dsimp only
  rw [cstr_eq_self hnul, if_neg fun hlong => by omega]

/-- A round over a line that does not fit. -/
theorem loadLoop_long {path : Bytes} {left : Nat} {st : Loading} {l rest : Bytes}
    (hfree : LF ∉ l) (hnul : 0 ∉ l) (hle : CONFIG_LINE_MAX - 1 ≤ l.length)
    (h : st.file.rest = l ++ rest) :
    (loadLoop path (left + 1) st).bad ≠ 0 := by
  obtain ⟨⟨s, eof⟩, lineno, bad, entries, stderr⟩ := st
  change s = _ at h
  subst h
  have htake : l.take (CONFIG_LINE_MAX - 1) ⊆ l := List.take_subset _ _
  rw [loadLoop, fgets_long hfree hle (by decide)]
  dsimp only
  rw [cstr_eq_self fun h => hnul (htake h), if_pos]
  · exact Nat.succ_ne_zero _
  · refine ⟨by rw [List.length_take]; omega, ?_⟩
    intro hlast
    exact hfree (htake (List.mem_of_getLast? hlast))

/-- A text is one line without its end, or a line and more behind its end. -/
theorem lines_cases (s : Bytes) : (LF ∉ s ∧ s.splitOn LF = [s]) ∨
    ∃ l rest, LF ∉ l ∧ s = l ++ LF :: rest ∧ s.splitOn LF = l :: rest.splitOn LF := by
  by_cases h : LF ∈ s
  · right
    obtain ⟨l, rest, rfl, hfree⟩ := List.eq_append_cons_of_mem h
    exact ⟨l, rest, hfree, rfl, List.splitOn_append_cons_self_of_not_mem hfree rest⟩
  · exact .inl ⟨h, List.splitOn_eq_singleton h⟩

/-- The read behind the bound meets the end in a last line that fits, and only there. -/
theorem fgets_eof (s : Bytes) :
    (fgets CONFIG_LINE_MAX ⟨s, false⟩).2.eof = true ↔
      (s.splitOn LF).length ≤ 1 ∧ ∀ l ∈ s.splitOn LF, l.length < CONFIG_LINE_MAX - 1 := by
  rcases lines_cases s with ⟨hfree, hpieces⟩ | ⟨l, rest, hfree, rfl, hpieces⟩
  · rw [hpieces]
    by_cases hlt : s.length < CONFIG_LINE_MAX - 1
    · refine iff_of_true ?_ ⟨Nat.le_refl _, by simpa using hlt⟩
      by_cases hs : s = []
      · rw [hs, fgets_end (by decide)]
      · rw [fgets_last hfree hlt hs]
    · refine iff_of_false ?_ (by simpa using Nat.not_lt.mp hlt)
      have h := @fgets_long CONFIG_LINE_MAX s [] false hfree (by omega) (by decide)
      rw [List.append_nil] at h
      rw [h]
      exact Bool.false_ne_true
  · have hlong : ¬ ((l ++ LF :: rest).splitOn LF).length ≤ 1 := by
      have hpos := List.length_pos_iff.mpr (List.splitOn_ne_nil LF rest)
      rw [hpieces, List.length_cons]
      omega
    refine iff_of_false ?_ fun h => hlong h.1
    by_cases hlt : l.length < CONFIG_LINE_MAX - 1
    · rw [fgets_line hfree hlt]
      exact Bool.false_ne_true
    · rw [fgets_long hfree (by omega) (by decide)]
      exact Bool.false_ne_true

/-- **The loop** reads the file to its end, and takes its lines, or it counts what
    is wrong, or stops in front of the end. -/
theorem loadLoop_iff {path : Bytes} : ∀ (left : Nat) {st : Loading}, 0 ∉ st.file.rest →
    st.file.eof = false → st.lineno + left = CONFIG_MAX_KEYS * 8 → Fits st.entries →
    ∀ {out : List Entry},
      (Clean (loadLoop path left st) ∧ (loadLoop path left st).entries = out ↔
        st.bad = 0 ∧ ∃ es, out = st.entries ++ es
          ∧ Loads left st.entries (st.file.rest.splitOn LF) es) := by
  intro left
  induction left with
  | zero =>
      intro st _ heof hcount hfits out
      rw [loadLoop, Clean]
      have hlines : CONFIG_MAX_KEYS * 8 ≤ st.lineno := Nat.le_of_eq hcount.symm
      have hend := fgets_eof st.file.rest
      rw [← heof] at hend
      constructor
      · rintro ⟨⟨hbad, hmet⟩, rfl⟩
        obtain ⟨hone, hshort⟩ := hend.mp (hmet hlines)
        exact ⟨hbad, [], (List.append_nil _).symm, .nil hfits, hone, hshort⟩
      · rintro ⟨hbad, es, rfl, htakes, hone, hshort⟩
        have hes : es = [] := by
          have h := htakes.parsed
          rw [List.take_zero] at h
          exact List.map_eq_nil_iff.mp h.symm
        rw [hes, List.append_nil]
        exact ⟨⟨hbad, fun _ => hend.mpr ⟨hone, hshort⟩⟩, rfl⟩
  | succ left ih =>
      intro st hnul heof hcount hfits out
      rcases lines_cases st.file.rest with ⟨hfree, hpieces⟩ | ⟨l, rest, hfree, hrest, hpieces⟩
      · -- what is left is one line that does not end
        simp only [hpieces, loads_single hfits]
        by_cases hlt : st.file.rest.length < CONFIG_LINE_MAX - 1
        · by_cases hs : st.file.rest = []
          · rw [loadLoop_end path _ hs, hs, Clean]
            constructor
            · rintro ⟨⟨hbad, -⟩, rfl⟩
              exact ⟨hbad, [], (List.append_nil _).symm, by decide, .inl ⟨by decide, rfl⟩⟩
            · rintro ⟨hbad, es, rfl, -, ⟨-, rfl⟩ | ⟨hne, -⟩⟩
              · exact ⟨⟨hbad, fun _ => rfl⟩, (List.append_nil _).symm⟩
              · exact absurd (by decide) hne
          · have hstep := @takeLine_iff path
              { st with file := ⟨[], true⟩, lineno := st.lineno + 1 } hfits st.file.rest out
            have hfile := takeLine_file path
              { st with file := ⟨[], true⟩, lineno := st.lineno + 1 } st.file.rest
            rw [loadLoop_last hfree hnul hlt hs rfl, loadLoop_end path left (by rw [hfile]), Clean]
            constructor
            · rintro ⟨⟨hbad, -⟩, hout⟩
              obtain ⟨hbad, added, hadds, hout⟩ := hstep.mp ⟨hbad, hout⟩
              exact ⟨hbad, added, hout, hlt, hadds⟩
            · rintro ⟨hbad, es, hout, -, hadds⟩
              obtain ⟨hbad, hout⟩ := hstep.mpr ⟨hbad, es, hadds, hout⟩
              exact ⟨⟨hbad, fun _ => rfl⟩, hout⟩
        · have hbad := @loadLoop_long path left st st.file.rest [] hfree hnul (by omega)
            (List.append_nil _).symm
          refine iff_of_false (fun h => hbad h.1.1) ?_
          rintro ⟨-, es, -, hshort, -⟩
          exact hlt hshort
      · -- a line, and more behind it
        simp only [hpieces, loads_cons]
        rw [hrest, List.mem_append, not_or, List.mem_cons, not_or] at hnul
        obtain ⟨hl, -, hnul⟩ := hnul
        by_cases hlt : l.length < CONFIG_LINE_MAX - 1
        · have hstep := @takeLine_iff path
            { st with file := ⟨rest, st.file.eof⟩, lineno := st.lineno + 1 } hfits (l ++ [LF])
          have hfile := takeLine_file path
            { st with file := ⟨rest, st.file.eof⟩, lineno := st.lineno + 1 } (l ++ [LF])
          have hlineno : _ = st.lineno + 1 := takeLine_lineno path
            { st with file := ⟨rest, st.file.eof⟩, lineno := st.lineno + 1 } (l ++ [LF])
          have hfits' := @takeLine_fits path
            { st with file := ⟨rest, st.file.eof⟩, lineno := st.lineno + 1 } hfits (l ++ [LF])
          rw [loadLoop_line hfree hl hlt hrest]
          generalize takeLine path { st with file := ⟨rest, st.file.eof⟩, lineno := st.lineno + 1 }
            (l ++ [LF]) = st' at hstep hfile hlineno hfits'
          refine (ih (by rwa [hfile]) (by rwa [hfile]) (by rw [hlineno]; omega) hfits').trans ?_
          rw [hfile]
          constructor
          · rintro ⟨hbad, more, rfl, hloads⟩
            obtain ⟨hbad, added, hadds, heq⟩ := hstep.mp ⟨hbad, rfl⟩
            rw [heq] at hloads
            exact ⟨hbad, added ++ more, by rw [heq, List.append_assoc], hlt, added, more,
              (adds_lf hlt).mp hadds, rfl, hloads⟩
          · rintro ⟨hbad, es, rfl, -, added, more, hadds, rfl, hloads⟩
            obtain ⟨hbad, heq⟩ := hstep.mpr ⟨hbad, added, (adds_lf hlt).mpr hadds, rfl⟩
            rw [← heq] at hloads
            exact ⟨hbad, more, by rw [heq, List.append_assoc], hloads⟩
        · have hbad := @loadLoop_long path left st l (LF :: rest) hfree hl (by omega) hrest
          refine iff_of_false (fun h => hbad h.1.1) ?_
          rintro ⟨-, es, -, hshort, -⟩
          exact hlt hshort

/-! ## The file -/

theorem fits_nil : Fits [] :=
  ⟨by simp, by simp, List.nodup_nil, Nat.zero_le _⟩

theorem badAtEnd_eq_zero {st : Loading} {f : File} :
    badAtEnd st f = 0 ↔ Clean st ∧ f.readError = false ∧ f.closeFails = false := by
  rw [badAtEnd, Clean]
  cases f.readError <;> cases f.closeFails <;> cases st.file.eof <;> simp

section File

variable {host : Host} {path : Bytes} {f : File}

/-- **`config_load`** refuses a file, or has taken its lines. -/
theorem configLoad_cases (hfile : host.fopen (configPath host path) = .file f)
    (hnul : 0 ∉ f.content) :
    configLoad host path = (-1, []) ∨ ∃ es : List Entry, configLoad host path = ((es.length : Int), es)
      ∧ Loads (CONFIG_MAX_KEYS * 8) [] (f.content.splitOn LF) es := by
  rw [configLoad, hfile]
  dsimp only
  by_cases hbad : badAtEnd (loadLoop (configPath host path) (CONFIG_MAX_KEYS * 8)
      { file := ⟨f.content, false⟩ }) f = 0
  · right
    rw [if_neg (not_not.mpr hbad)]
    obtain ⟨-, es, hout, hloads⟩ := (loadLoop_iff (CONFIG_MAX_KEYS * 8) hnul rfl (Nat.zero_add _)
      fits_nil).mp ⟨(badAtEnd_eq_zero.mp hbad).1, rfl⟩
    rw [hout]
    exact ⟨es, rfl, hloads⟩
  · exact .inl (if_pos hbad)

/-- A file whose lines can be taken is loaded. -/
theorem configLoad_loads (hfile : host.fopen (configPath host path) = .file f)
    (hnul : 0 ∉ f.content) (hread : f.readError = false) (hclose : f.closeFails = false)
    {es : List Entry} (hloads : Loads (CONFIG_MAX_KEYS * 8) [] (f.content.splitOn LF) es) :
    configLoad host path = ((es.length : Int), es) := by
  obtain ⟨hclean, hes⟩ := (@loadLoop_iff (configPath host path) (CONFIG_MAX_KEYS * 8)
    { file := ⟨f.content, false⟩ } hnul rfl (Nat.zero_add _) fits_nil es).mpr
    ⟨rfl, es, rfl, hloads⟩
  rw [configLoad, hfile]
  dsimp only
  rw [if_neg (not_not.mpr (badAtEnd_eq_zero.mpr ⟨hclean, hread, hclose⟩)), hes]

end File

/-- The entry of a key, where keys are distinct. -/
theorem find_key {es : List Entry} (hdistinct : (es.map (·.key)).Nodup) {e : Entry} (he : e ∈ es) :
    es.find? (fun x => x.key = e.key) = some e := by
  induction es with
  | nil => cases he
  | cons x es ih =>
      rw [List.map_cons, List.nodup_cons] at hdistinct
      rcases List.mem_cons.mp he with rfl | he
      · rw [List.find?_cons_of_pos (by simp)]
      · have hne : x.key ≠ e.key := fun h =>
          hdistinct.1 (h ▸ List.mem_map_of_mem he)
        rw [List.find?_cons_of_neg (by simpa using hne), ih hdistinct.2 he]

/-- `config_str` finds what is stored, where the environment does not say otherwise. -/
theorem configStr_stored {host : Host} {es : List Entry} (hdistinct : (es.map (·.key)).Nodup)
    {e : Entry} (he : e ∈ es) (hunset : host.getenv (envName e.key CONFIG_ENV_MAX) = none)
    (fallback : Bytes) : configStr host es e.key fallback = e.value := by
  rw [configStr, hunset, find_key hdistinct he]

theorem parsed_append (lines more : List Bytes) :
    parsed (lines ++ more) = parsed lines ++ parsed more := by
  rw [parsed, meant, List.filter_append, List.map_append, parsed, parsed, meant, meant]

/-- A last line that is blank adds nothing. -/
theorem parsed_blank {l : Bytes} (h : lineText l = []) : parsed [l] = [] := by
  rw [parsed, meant, List.filter_cons_of_neg (by simp [h]), List.filter_nil, List.map_nil]

theorem parsed_single {l : Bytes} (h : lineText l ≠ []) : parsed [l] = [entryOf (lineText l)] := by
  rw [parsed, meant, List.filter_cons_of_pos (by simp [h]), List.filter_nil, List.map_cons,
    List.map_nil]

/-- Of a file that is loaded every line is stored, unless it drops one. -/
theorem Loads.whole {content : Bytes} {es : List Entry}
    (h : Loads (CONFIG_MAX_KEYS * 8) [] (content.splitOn LF) es) (hkept : ¬ Dropped content) :
    parsed (content.splitOn LF) = es.map some := by
  generalize hpieces : content.splitOn LF = pieces at h
  obtain ⟨htakes, henough, hshort⟩ := h
  rw [← htakes.parsed]
  by_cases hall : pieces.length ≤ CONFIG_MAX_KEYS * 8
  · rw [List.take_of_length_le hall]
  · -- the line behind the bound is the last one, and blank
    have hone : (pieces.drop (CONFIG_MAX_KEYS * 8)).length = 1 := by
      rw [List.length_drop]
      omega
    obtain ⟨last, hlast⟩ := List.length_eq_one_iff.mp hone
    have hsplit := List.take_append_drop (CONFIG_MAX_KEYS * 8) pieces
    rw [hlast] at hsplit hshort
    have hblank : lineText last = [] := by
      by_contra hne
      refine hkept ⟨pieces.take (CONFIG_MAX_KEYS * 8), last, by rw [hpieces, hsplit], ?_,
        hshort last List.mem_cons_self, hne, es, htakes⟩
      rw [List.length_take]
      omega
    conv_lhs => rw [← hsplit, parsed_append, parsed_blank hblank, List.append_nil]

/-- A file that drops a line is loaded. -/
theorem Dropped.loads {content : Bytes} (h : Dropped content) :
    ∃ es, Loads (CONFIG_MAX_KEYS * 8) [] (content.splitOn LF) es
      ∧ parsed (content.splitOn LF) ≠ es.map some := by
  obtain ⟨front, last, hpieces, hlen, hlast, hne, es, htakes⟩ := h
  refine ⟨es, ⟨?_, ?_, ?_⟩, ?_⟩
  · rw [hpieces, ← hlen, List.take_left]
    exact htakes
  · rw [hpieces, List.length_append, hlen, List.length_singleton]
  · rw [hpieces, ← hlen, List.drop_left]
    simpa using hlast
  · rw [hpieces, parsed_append, htakes.parsed, parsed_single hne]
    simp

/-- Such a file is not loaded whole. -/
theorem Dropped.not_whole {content : Bytes} (hnul : 0 ∉ content) (h : Dropped content) :
    ¬ LoadsWhole content := by
  intro hwhole
  obtain ⟨es, hloads, hlost⟩ := h.loads
  let host : Host := ⟨fun _ => none, fun _ => .file ⟨content, false, false⟩⟩
  have hrun : configLoad host [] = ((es.length : Int), es) :=
    @configLoad_loads host [] ⟨content, false, false⟩ rfl hnul rfl rfl es hloads
  have hall := hwhole host [] false false rfl
  rw [hrun] at hall
  exact hlost (hall.stored (Int.natCast_nonneg _))

/-- **Loading is all or nothing** for exactly the files that do not end in a line
    behind the bound. -/
theorem all_or_nothing_iff {content : Bytes} (hnul : 0 ∉ content) :
    LoadsWhole content ↔ ¬ Dropped content := by
  constructor
  · exact fun hwhole hdropped => hdropped.not_whole hnul hwhole
  · intro hkept host path readError closeFails hfile
    rcases configLoad_cases hfile hnul with hrun | ⟨es, hrun, hloads⟩
    · rw [hrun]
      have hneg : ¬ (0 : Int) ≤ -1 := by decide
      exact ⟨fun h => absurd h hneg, fun h => absurd h hneg, fun h => absurd h hneg,
        fun h => absurd h hneg, fun _ => rfl⟩
    · rw [hrun]
      have hdistinct : (es.map (·.key)).Nodup := hloads.takes.fits.distinct
      exact ⟨fun _ => rfl, fun _ => hdistinct, fun _ => hloads.whole hkept,
        fun _ e he hunset fallback => configStr_stored hdistinct he hunset fallback,
        fun h => absurd (Int.natCast_nonneg es.length) (Int.not_le.mpr h)⟩

/-- Blank lines as many as are counted, and a line behind them. -/
def onePastTheBound : Bytes := List.replicate (CONFIG_MAX_KEYS * 8) LF ++ lit "a=1"

theorem splitOn_replicate (n : Nat) {last : Bytes} (hfree : LF ∉ last) :
    (List.replicate n LF ++ last).splitOn LF = List.replicate n [] ++ [last] := by
  induction n with
  | zero => exact List.splitOn_eq_singleton hfree
  | succ n ih =>
      have h := List.splitOn_append_cons_self_of_not_mem (List.not_mem_nil (a := LF))
        (List.replicate n LF ++ last)
      rw [List.nil_append] at h
      rw [List.replicate_succ, List.cons_append, h, ih, List.replicate_succ, List.cons_append]

theorem onePastTheBound_lines :
    onePastTheBound.splitOn LF = List.replicate (CONFIG_MAX_KEYS * 8) [] ++ [lit "a=1"] :=
  splitOn_replicate _ (by decide)

theorem onePastTheBound_nul : 0 ∉ onePastTheBound := by
  rw [onePastTheBound, List.mem_append, not_or]
  exact ⟨fun h => absurd (List.eq_of_mem_replicate h) (by decide), by decide⟩

theorem onePastTheBound_takes : Takes [] (List.replicate (CONFIG_MAX_KEYS * 8) []) [] where
  short := by
    intro line hline
    rw [List.eq_of_mem_replicate hline]
    decide
  parsed := by
    have hblank : meant (List.replicate (CONFIG_MAX_KEYS * 8) []) = [] := by
      rw [meant, List.filter_eq_nil_iff]
      intro line hline
      rw [List.eq_of_mem_replicate hline]
      decide
    rw [ConfigLoad.parsed, hblank, List.map_nil, List.map_nil]
  fits := fits_nil

/-- The last line is not blank and not stored, and the file is loaded. -/
theorem line_dropped :
    lineText (lit "a=1") ≠ []
      ∧ configLoad ⟨fun _ => none, fun _ => .file ⟨onePastTheBound, false, false⟩⟩ [] = (0, [])
      ∧ ¬ LoadsWhole onePastTheBound := by
  have hlast : lineText (lit "a=1") ≠ [] := by decide
  refine ⟨hlast, ?_, ?_⟩
  · refine @configLoad_loads _ [] ⟨onePastTheBound, false, false⟩ rfl onePastTheBound_nul rfl rfl []
      ⟨?_, ?_, ?_⟩
    · rw [onePastTheBound_lines, List.take_left' List.length_replicate]
      exact onePastTheBound_takes
    · rw [onePastTheBound_lines, List.length_append, List.length_replicate, List.length_singleton]
    · rw [onePastTheBound_lines, List.drop_left' List.length_replicate]
      decide
  · exact Dropped.not_whole onePastTheBound_nul ⟨_, _, onePastTheBound_lines,
      List.length_replicate, by decide, hlast, [], onePastTheBound_takes⟩

/-- A file of one line. -/
theorem all_or_nothing_iff_short :
    0 ∉ lit "port = 80\n" ∧ (LoadsWhole (lit "port = 80\n") ↔ ¬ Dropped (lit "port = 80\n")) :=
  ⟨by decide, all_or_nothing_iff (by decide)⟩

end ConfigLoad

import Gargantua.Lib.CInitializer
import Gargantua.Lib.SqlTable
import Gargantua.DbSqlite
import Gargantua.EmittedTypes

/-! # Generated statements (`src/generator/generator_emit.c`)

    For each table the generator writes C functions with an `INSERT` and an
    `UPDATE`.  Their columns, placeholders and arguments come from loops of their
    own, each leaving the key out, and the text of a wide table is written as
    numbers and not as a literal.  The C says the same either way, and the
    columns, placeholders and arguments are in step (`crud_aligned`). -/

namespace CrudEmit

open CString GeneratorText GeneratorSource GeneratorTypes GeneratorAccepted RouteGenerator SqlText
  GeneratorValidate SqlWords SqlTable CInitializer EmittedTypes

/-! ## Emitting -/

/-- `find_primary_key`. -/
def findPrimaryKey (t : ParsedType) : Option ParsedField :=
  (t.fields.take GENERATOR_MAX_FIELDS).find? (·.flags.id)

/-- The fields but for the key: it is left out by its address, and it is the
    first field with the flag. -/
def otherFields (t : ParsedType) : List ParsedField :=
  (t.fields.take GENERATOR_MAX_FIELDS).eraseP (·.flags.id)

/-- The macro that `emit_sql_argument` chooses. -/
def argumentMacro (f : ParsedField) : Bytes :=
  if f.flags.nullable then lit "SQL_OPTION_" ++ f.cType
  else
    match f.kind with
    | some .str => lit "SQL_TEXT"
    | some .long => lit "SQL_LONG"
    | some .double => lit "SQL_DOUBLE"
    | some .bool => lit "SQL_BOOL"
    | _ => lit "SQL_INT"

/-- `emit_sql_argument`. -/
def emitSqlArgument (f : ParsedField) (var : Bytes) : Bytes :=
  argumentMacro f ++ lit "(" ++ var ++ lit "." ++ f.name ++ lit ")"

/-- The loop of `emit_crud_args`; the key is behind. -/
def argumentLoop : Bool → List ParsedField → Bytes
  | _, [] => []
  | first, f :: fields =>
      (if first then [] else lit ", ") ++ emitSqlArgument f (lit "wrap_row")
        ++ argumentLoop false fields

/-- `emit_crud_args`. -/
def emitCrudArgs (t : ParsedType) (pk : ParsedField) (includeId : Bool) : Bytes :=
  if t.fields.length = 1 ∧ includeId = false then lit "SQL_NOARGS"
  else
    lit "SQL_ARGS(" ++ argumentLoop true (otherFields t)
      ++ (if includeId then
          (if otherFields t = [] then [] else lit ", ") ++ lit "SQL_INT(wrap_row." ++ pk.name
            ++ lit ")"
        else [])
      ++ lit ")"

/-- The loop of `emit_sql_fragment`, from the byte at `i` on. -/
def fragmentLoop (bytes : Bool) : Nat → Bytes → Bytes
  | _, [] => []
  | i, c :: text =>
      (if bytes then Decimal.print c.toNat ++ COMMA :: (if i % 16 = 15 then [LF] else [])
        else if c = CInitializer.QUOTE ∨ c = BACKSLASH then [BACKSLASH, c] else [c])
        ++ fragmentLoop bytes (i + 1) text

/-- `emit_sql_fragment`. -/
def emitSqlFragment (bytes : Bool) (text : Bytes) : Bytes := fragmentLoop bytes 0 text

/-- The fragments of `emit_sql_name`. -/
def sqlName (name : Bytes) : List Bytes := [lit "\"", name, lit "\""]

/-- The fragments of a loop over the fields, with `item` for each of them. -/
def fieldFragments (item : Bool → ParsedField → List Bytes) : Bool → List ParsedField → List Bytes
  | _, [] => []
  | first, f :: fields => item first f ++ fieldFragments item false fields

def comma (first : Bool) : List Bytes := if first then [] else [lit ", "]

/-- A column of the `INSERT`, a placeholder of it, and a column of the `UPDATE`. -/
def columnItem (first : Bool) (f : ParsedField) : List Bytes := comma first ++ sqlName f.name
def valueItem (first : Bool) (_ : ParsedField) : List Bytes := [if first then lit "?" else lit ", ?"]
def setItem (first : Bool) (f : ParsedField) : List Bytes :=
  comma first ++ sqlName f.name ++ [lit " = ?"]

/-- The fragments of `emit_crud_insert`. -/
def insertFragments (t : ParsedType) (pk : ParsedField) : List Bytes :=
  [lit "INSERT INTO "] ++ sqlName t.name
    ++ (if t.fields.length = 1 then [lit " DEFAULT VALUES"]
      else [lit " ("] ++ fieldFragments columnItem true (otherFields t) ++ [lit ") VALUES ("]
        ++ fieldFragments valueItem true (otherFields t) ++ [lit ")"])
    ++ [lit " RETURNING "] ++ sqlName pk.name

/-- The fragments of `emit_crud_update`. -/
def updateFragments (t : ParsedType) (pk : ParsedField) : List Bytes :=
  [lit "UPDATE "] ++ sqlName t.name ++ [lit " SET "] ++ fieldFragments setItem true (otherFields t)
    ++ [lit " WHERE "] ++ sqlName pk.name ++ [lit " = ?"]

/-- The initializer of `wrap_sql`, with its semicolon. -/
def emitSql (bytes : Bool) (fragments : List Bytes) : Bytes :=
  (if bytes then lit "\x7b\n" else lit "\"") ++ fragments.flatMap (emitSqlFragment bytes)
    ++ (if bytes then lit "0\x7d;" else lit "\";")

/-- A text is written as numbers for more than 32 fields. -/
def asBytes (t : ParsedType) : Bool := t.fields.length > 32

/-! ## The initializers -/

theorem fragmentLoop_escape : ∀ (text : Bytes) (i : Nat), fragmentLoop false i text = escape text
  | [], _ => rfl
  | c :: text, i => by
      rw [fragmentLoop, if_neg Bool.false_ne_true, fragmentLoop_escape text (i + 1)]
      rfl

theorem fragments_escape (fragments : List Bytes) :
    fragments.flatMap (emitSqlFragment false) = escape fragments.flatten := by
  induction fragments with
  | nil => rfl
  | cons text fragments ih =>
      rw [List.flatMap_cons, ih, emitSqlFragment, fragmentLoop_escape, List.flatten_cons, escape,
        escape, escape, List.flatMap_append]

theorem fragmentLoop_numbers (rest : Bytes) : ∀ (text : Bytes) (i : Nat),
    readNumbers none (fragmentLoop true i text ++ rest)
      = (readNumbers none rest).map fun r => (text ++ r.1, r.2)
  | [], _ => by
      rw [fragmentLoop, List.nil_append]
      exact Option.map_id'.symm
  | c :: text, i => by
      have ih := fragmentLoop_numbers rest text (i + 1)
      have hfeed : ∀ s, readNumbers none ((if i % 16 = 15 then [LF] else []) ++ s)
          = readNumbers none s := by
        intro s
        split_ifs
        · exact readNumbers_feed s
        · rfl
      rw [fragmentLoop, if_pos rfl, List.append_assoc, List.append_assoc, List.cons_append,
        readNumbers_byte, hfeed, ih, Option.map_map]
      rfl

theorem fragments_numbers (rest : Bytes) : ∀ fragments : List Bytes,
    readNumbers none (fragments.flatMap (emitSqlFragment true) ++ rest)
      = (readNumbers none rest).map fun r => (fragments.flatten ++ r.1, r.2)
  | [] => Option.map_id'.symm
  | text :: fragments => by
      rw [List.flatMap_cons, List.append_assoc, emitSqlFragment, fragmentLoop_numbers,
        fragments_numbers rest fragments, Option.map_map]
      refine Option.map_congr fun r _ => ?_
      rw [Function.comp_apply, List.flatten_cons, List.append_assoc]

/-- **Both spellings of a text are the text, with its terminator.** -/
theorem emitSql_text (bytes : Bool) {fragments : List Bytes} (hlf : LF ∉ fragments.flatten)
    (hcalm : Calm fragments.flatten) :
    charArray (emitSql bytes fragments) = some (fragments.flatten ++ [0]) := by
  cases bytes with
  | false =>
      have hliteral := charArray_literal hlf hcalm
      rw [emitSql, fragments_escape]
      exact hliteral
  | true =>
      have hend : readNumbers none (lit "0\x7d;") = some ([0], [SEMICOLON]) := rfl
      have hnumbers := fragments_numbers (lit "0\x7d;") fragments
      rw [hend, Option.map_some] at hnumbers
      have hbraces : emitSql true fragments
          = OPEN :: LF :: (fragments.flatMap (emitSqlFragment true) ++ lit "0\x7d;") := rfl
      rw [hbraces, charArray, if_neg (by decide), if_pos rfl, readNumbers_feed, hnumbers,
        Option.bind_some, if_pos rfl]

/-! ## Names -/

/-- A name of the model: bytes of words only, and fewer than 64. -/
structure PlainName (name : Bytes) : Prop where
  bytes : ∀ c ∈ name, isWordByte c = true
  short : name.length < GENERATOR_MAX_NAME

theorem isWordByte_of_alnum (c : Byte) (h : (isAlnum c || c == 0x5F) = true) :
    isWordByte c = true := by
  revert h
  cases c with
  | ofBitVec b =>
      revert b
      decide +kernel

theorem plainName {name : Bytes} (h : isSafeIdentifier name = true) : PlainName name := by
  rw [isSafeIdentifier] at h
  split at h
  · cases h
  rename_i hhead
  simp only [Bool.or_eq_true, not_or, Bool.not_eq_true, Bool.not_eq_false'] at hhead
  obtain ⟨hlength, htail⟩ := Bool.and_eq_true_iff.mp h
  refine ⟨fun c hc => isWordByte_of_alnum c ?_, of_decide_eq_true hlength⟩
  cases name with
  | nil => cases hc
  | cons d name =>
      rcases List.mem_cons.mp hc with rfl | hc
      · have hd : isAlpha c = true := hhead.1.1
        rw [isAlnum, hd]
        rfl
      · exact List.all_eq_true.mp htail c hc

/-- A text without trigraphs, line ends and terminators, that makes no trigraph
    with the text in front of it. -/
structure Quiet (s : Bytes) : Prop where
  calm : Calm s
  head : s.head? ≠ some QUESTION
  feed : LF ∉ s
  nul : (0 : Byte) ∉ s

theorem Quiet.append {s t : Bytes} (hs : Quiet s) (ht : Quiet t) : Quiet (s ++ t) where
  calm := calm_append hs.calm ht.calm ht.head
  head := by
    cases s with
    | nil => exact ht.head
    | cons c s => exact hs.head
  feed := fun h => (List.mem_append.mp h).elim hs.feed ht.feed
  nul := fun h => (List.mem_append.mp h).elim hs.nul ht.nul

theorem Quiet.flatMap {α : Type} {f : α → Bytes} : ∀ {l : List α}, (∀ a ∈ l, Quiet (f a)) →
    Quiet (l.flatMap f)
  | [], _ => ⟨trivial, (fun h => nomatch h), (fun h => nomatch h), (fun h => nomatch h)⟩
  | _ :: _, h =>
      (h _ List.mem_cons_self).append (Quiet.flatMap fun a ha => h a (List.mem_cons_of_mem _ ha))

theorem PlainName.not_mem {name : Bytes} (h : PlainName name) {c : Byte} (hc : isWordByte c = false) :
    c ∉ name := fun hmem => by
  rw [h.bytes c hmem] at hc
  cases hc

theorem PlainName.quiet {name : Bytes} (h : PlainName name) : Quiet (quoted name) := by
  have hend : Calm [SqlText.QUOTE] := by decide
  have hquestion : QUESTION ∉ SqlText.QUOTE :: name := by
    rw [List.mem_cons, not_or]
    exact ⟨by decide, h.not_mem (by decide)⟩
  have hno : ∀ c, isWordByte c = false → c ≠ SqlText.QUOTE → c ∉ quoted name := by
    intro c hword hquote
    rw [quoted, List.mem_cons, List.mem_append, List.mem_singleton, not_or, not_or]
    exact ⟨hquote, h.not_mem hword, hquote⟩
  exact ⟨calm_plain hquestion hend, (by intro h; cases h), hno LF (by decide) (by decide),
    hno 0 (by decide) (by decide)⟩

/-! ## The texts -/

/-- The text of the `INSERT`. -/
def insertText (table : Bytes) (columns : List Bytes) (key : Bytes) : Bytes :=
  lit "INSERT INTO " ++ (quoted table ++ ((match columns with
    | [] => lit " DEFAULT VALUES"
    | c :: cs =>
        lit " (" ++ (quoted c ++ (cs.flatMap (fun c => lit ", " ++ quoted c)
          ++ (lit ") VALUES (?" ++ (cs.flatMap (fun _ => lit ", ?") ++ lit ")")))))
    ++ (lit " RETURNING " ++ quoted key)))

/-- The text of the `UPDATE`. -/
def updateText (table : Bytes) (c : Bytes) (cs : List Bytes) (key : Bytes) : Bytes :=
  lit "UPDATE " ++ (quoted table ++ (lit " SET " ++ (quoted c ++ (lit " = ?"
    ++ (cs.flatMap (fun c => lit ", " ++ (quoted c ++ lit " = ?"))
      ++ (lit " WHERE " ++ (quoted key ++ lit " = ?")))))))

theorem sqlName_flatten (name : Bytes) : (sqlName name).flatten = quoted name := by
  rw [sqlName, List.flatten_cons, List.flatten_cons, List.flatten_cons, List.flatten_nil]
  rfl

theorem fieldFragments_flatten (item : Bool → ParsedField → List Bytes) :
    ∀ fields : List ParsedField, (fieldFragments item false fields).flatten
      = fields.flatMap fun f => (item false f).flatten
  | [] => rfl
  | f :: fields => by
      rw [fieldFragments, List.flatten_append, fieldFragments_flatten item fields, List.flatMap_cons]

section Texts

variable {t : ParsedType} {pk : ParsedField}

/-- A table has other fields unless its key is its only one. -/
theorem otherFields_nil (hlength : t.fields.length ≤ GENERATOR_MAX_FIELDS)
    (hpk : findPrimaryKey t = some pk) : otherFields t = [] ↔ t.fields.length = 1 := by
  have hmem := List.mem_of_find?_eq_some hpk
  have hid := List.find?_some hpk
  rw [otherFields, ← List.length_eq_zero_iff, List.length_eraseP_of_mem hmem hid, List.length_take,
    Nat.min_eq_right hlength]
  have hpos : 0 < t.fields.length := List.length_pos_of_mem (List.mem_of_mem_take hmem)
  omega

theorem insert_flatten (hlength : t.fields.length ≤ GENERATOR_MAX_FIELDS)
    (hpk : findPrimaryKey t = some pk) :
    (insertFragments t pk).flatten
      = insertText t.name ((otherFields t).map (·.name)) pk.name := by
  have hnil := otherFields_nil hlength hpk
  cases hothers : otherFields t with
  | nil =>
      rw [insertFragments, if_pos (hnil.mp hothers)]
      simp only [List.flatten_append, List.flatten_cons, List.flatten_nil, sqlName_flatten,
        List.append_nil, List.append_assoc, List.map_nil, insertText]
  | cons f fields =>
      have hne : ¬ t.fields.length = 1 := fun h => by
        rw [hnil.mpr h] at hothers
        cases hothers
      have hopen : lit ") VALUES (" ++ lit "?" = lit ") VALUES (?" := by decide
      rw [insertFragments, if_neg hne, hothers]
      simp only [fieldFragments, columnItem, valueItem, comma, if_pos, if_neg Bool.false_ne_true,
        List.flatten_append, List.flatten_cons, List.flatten_nil, sqlName_flatten,
        fieldFragments_flatten, List.append_nil, List.nil_append, List.append_assoc, List.map_cons,
        insertText, List.flatMap_map, ← hopen]

theorem update_flatten {f : ParsedField} {fields : List ParsedField}
    (hothers : otherFields t = f :: fields) :
    (updateFragments t pk).flatten
      = updateText t.name f.name (fields.map (·.name)) pk.name := by
  rw [updateFragments, hothers]
  simp only [fieldFragments, setItem, comma, if_pos, if_neg Bool.false_ne_true,
    List.flatten_append, List.flatten_cons, List.flatten_nil, sqlName_flatten,
    fieldFragments_flatten, List.append_nil, List.nil_append, List.append_assoc, updateText,
    List.flatMap_map]

end Texts

/-! ## The statements -/

section Words

variable {table key : Bytes}

theorem scan_columns {rest : Bytes} {ws : List Word} {m : Mode}
    (hrest : ∀ n, scan (.closed n) rest = (.name n :: ws, m)) :
    ∀ (cs : List Bytes), (∀ c ∈ cs, SqlText.QUOTE ∉ c) → ∀ n,
      scan (.closed n) (cs.flatMap (fun c => lit ", " ++ quoted c) ++ rest)
        = (.name n :: (cs.flatMap (fun c => Word.mark 0x2C :: nameWords c) ++ ws), m)
  | [], _, n => hrest n
  | c :: cs, h, n => by
      have hcomma : scan (.closed n) (lit ", ") = ([.name n, .mark 0x2C], .blank) := rfl
      have hname := scan_quoted (h c List.mem_cons_self)
      have ih := scan_columns hrest cs (fun d hd => h d (List.mem_cons_of_mem c hd)) c
      rw [List.flatMap_cons, List.append_assoc, List.append_assoc]
      exact scan_trans hcomma (scan_trans hname ih)

theorem scan_values {rest : Bytes} {ws : List Word} {m : Mode} (hrest : scan .blank rest = (ws, m)) :
    ∀ cs : List Bytes, scan .blank (cs.flatMap (fun _ => lit ", ?") ++ rest)
      = (cs.flatMap (fun c => Word.mark 0x2C :: valueWords c) ++ ws, m)
  | [] => hrest
  | c :: cs => by
      have hvalue : scan .blank (lit ", ?") = ([.mark 0x2C, VALUE], .blank) := rfl
      have h := scan_trans hvalue (scan_values hrest cs)
      rw [List.flatMap_cons, List.append_assoc]
      exact h

theorem scan_sets {rest : Bytes} {ws : List Word} {m : Mode} (hrest : scan .blank rest = (ws, m)) :
    ∀ cs : List Bytes, (∀ c ∈ cs, SqlText.QUOTE ∉ c) →
      scan .blank (cs.flatMap (fun c => lit ", " ++ (quoted c ++ lit " = ?")) ++ rest)
        = (cs.flatMap (fun c => Word.mark 0x2C :: setWords c) ++ ws, m)
  | [], _ => hrest
  | c :: cs, h => by
      have hcomma : scan .blank (lit ", ") = ([.mark 0x2C], .blank) := rfl
      have hname := scan_quoted (h c List.mem_cons_self)
      have hset : scan (.closed c) (lit " = ?") = ([.name c, EQUAL, VALUE], .blank) := rfl
      have ih := scan_sets hrest cs fun d hd => h d (List.mem_cons_of_mem c hd)
      have hall := scan_trans hcomma (scan_trans hname (scan_trans hset ih))
      rw [List.flatMap_cons, List.append_assoc, List.append_assoc, List.append_assoc]
      exact hall

/-- **The text of the `INSERT` is the statement.** -/
theorem readText_insert (htable : SqlText.QUOTE ∉ table) (hkey : SqlText.QUOTE ∉ key)
    {cs : List Bytes} (hcs : ∀ c ∈ cs, SqlText.QUOTE ∉ c) :
    readText (insertText table cs key) = some (.insert table cs key) := by
  have hinsert : scan .blank (lit "INSERT INTO ") = ([keyword "INSERT", keyword "INTO"], .blank) := rfl
  have htableName := scan_quoted htable
  have hkeyName := scan_quoted hkey
  cases cs with
  | nil =>
      have hdefault : scan (.closed table) (lit " DEFAULT VALUES")
          = ([.name table, keyword "DEFAULT"], .word (lit "VALUES")) := rfl
      have hreturning : scan (.word (lit "VALUES")) (lit " RETURNING ")
          = ([keyword "VALUES", keyword "RETURNING"], .blank) := rfl
      have hscan := scan_trans hinsert (scan_trans htableName
        (scan_trans hdefault (scan_trans hreturning hkeyName)))
      rw [readText, insertText, words_closed hscan]
      exact @read_words (.insert table [] key) trivial
  | cons c cs =>
      have hopen : scan (.closed table) (lit " (") = ([.name table, LEFT], .blank) := rfl
      have hfirst := scan_quoted (hcs c List.mem_cons_self)
      have hvalues : ∀ n, scan (.closed n) (lit ") VALUES (?")
          = ([.name n, RIGHT, keyword "VALUES", LEFT, VALUE], .blank) := fun n => rfl
      have hclose : scan .blank (lit ")" ++ (lit " RETURNING " ++ quoted key))
          = ([RIGHT, keyword "RETURNING"], .closed key) :=
        scan_trans (rfl : scan .blank (lit ")") = ([RIGHT], .blank))
          (scan_trans (rfl : scan .blank (lit " RETURNING ") = ([keyword "RETURNING"], .blank))
            hkeyName)
      have hrest : ∀ n, scan (.closed n) (lit ") VALUES (?"
            ++ (cs.flatMap (fun _ => lit ", ?") ++ (lit ")" ++ (lit " RETURNING " ++ quoted key))))
          = (.name n :: ([RIGHT, keyword "VALUES", LEFT, VALUE]
              ++ (cs.flatMap (fun c => Word.mark 0x2C :: valueWords c)
                ++ [RIGHT, keyword "RETURNING"])), .closed key) :=
        fun n => scan_trans (hvalues n) (scan_values hclose cs)
      have hcolumns := scan_columns hrest cs (fun d hd => hcs d (List.mem_cons_of_mem c hd)) c
      have hscan := scan_trans hinsert (scan_trans htableName
        (scan_trans hopen (scan_trans hfirst hcolumns)))
      have htext : insertText table (c :: cs) key = lit "INSERT INTO " ++ (quoted table ++ (lit " ("
          ++ (quoted c ++ (cs.flatMap (fun c => lit ", " ++ quoted c) ++ (lit ") VALUES (?"
            ++ (cs.flatMap (fun _ => lit ", ?") ++ (lit ")" ++ (lit " RETURNING "
              ++ quoted key)))))))) := by
        simp only [insertText, List.append_assoc]
      have hwords : (Statement.insert table (c :: cs) key).words
          = [keyword "INSERT", keyword "INTO"] ++ ([] ++ ([.name table, LEFT] ++ ([]
            ++ (.name c :: (cs.flatMap (fun c => Word.mark 0x2C :: nameWords c)
              ++ ([RIGHT, keyword "VALUES", LEFT, VALUE]
                ++ (cs.flatMap (fun c => Word.mark 0x2C :: valueWords c)
                  ++ [RIGHT, keyword "RETURNING"]))))))) ++ [.name key] := by
        simp only [Statement.words, listWords, nameWords, valueWords, List.cons_append,
          List.nil_append, List.append_assoc]
      rw [readText, htext, words_closed hscan, ← hwords]
      exact @read_words (.insert table (c :: cs) key) trivial

/-- **The text of the `UPDATE` is the statement.** -/
theorem readText_update (htable : SqlText.QUOTE ∉ table) (hkey : SqlText.QUOTE ∉ key) {c : Bytes}
    {cs : List Bytes} (hcs : ∀ d ∈ c :: cs, SqlText.QUOTE ∉ d) :
    readText (updateText table c cs key) = some (.update table (c :: cs) key) := by
  have hupdate : scan .blank (lit "UPDATE ") = ([keyword "UPDATE"], .blank) := rfl
  have hset : scan (.closed table) (lit " SET ") = ([.name table, keyword "SET"], .blank) := rfl
  have hvalue : ∀ n, scan (.closed n) (lit " = ?") = ([.name n, EQUAL, VALUE], .blank) := fun n => rfl
  have hwhere : scan .blank (lit " WHERE ") = ([keyword "WHERE"], .blank) := rfl
  have hend := scan_trans hwhere (scan_trans (scan_quoted hkey) (hvalue key))
  have hsets := scan_sets hend cs fun d hd => hcs d (List.mem_cons_of_mem c hd)
  have hscan := scan_trans hupdate (scan_trans (scan_quoted htable) (scan_trans hset
    (scan_trans (scan_quoted (hcs c List.mem_cons_self)) (scan_trans (hvalue c) hsets))))
  have hwords : (Statement.update table (c :: cs) key).words
      = [keyword "UPDATE"] ++ ([] ++ ([.name table, keyword "SET"] ++ ([]
        ++ ([.name c, EQUAL, VALUE] ++ (cs.flatMap (fun c => Word.mark 0x2C :: setWords c)
          ++ ([keyword "WHERE"] ++ ([] ++ [.name key, EQUAL, VALUE]))))))) := by
    simp only [Statement.words, listWords, setWords, whereWords, List.cons_append,
      List.nil_append]
  rw [readText, updateText, words_blank hscan, ← hwords]
  exact @read_words (.update table (c :: cs) key) (List.cons_ne_nil c cs)

end Words

/-! ## The arguments -/

/-- An argument of a statement: a macro on a member of a struct variable. -/
structure Argument where
  call : Bytes
  var : Bytes
  member : Bytes
  deriving DecidableEq

def readArgument (s : Bytes) : Option (Argument × Bytes) :=
  match s.dropWhile isWordByte with
  | [] => none
  | c :: s' =>
      match s'.dropWhile isWordByte with
      | [] => none
      | d :: s'' =>
          match s''.dropWhile isWordByte with
          | [] => none
          | e :: rest =>
              if c = 0x28 ∧ d = 0x2E ∧ e = 0x29 then
                some (⟨s.takeWhile isWordByte, s'.takeWhile isWordByte, s''.takeWhile isWordByte⟩, rest)
              else none

def readMoreArguments : Nat → Bytes → Option (List Argument)
  | 0, _ => none
  | fuel + 1, s =>
      if s = lit ")" then some []
      else if s.take 2 = lit ", " then
        (readArgument (s.drop 2)).bind fun r => (readMoreArguments fuel r.2).map (r.1 :: ·)
      else none

/-- The arguments that `SQL_ARGS` or `SQL_NOARGS` lists. -/
def readArguments (s : Bytes) : Option (List Argument) :=
  if s = lit "SQL_NOARGS" then some []
  else if s.take 9 = lit "SQL_ARGS(" then
    (readArgument (s.drop 9)).bind fun r => (readMoreArguments (s.length + 1) r.2).map (r.1 :: ·)
  else none

/-- The argument for a field. -/
def fieldArgument (f : ParsedField) : Argument := ⟨argumentMacro f, lit "wrap_row", f.name⟩

/-- The argument for the key. -/
def keyArgument (pk : ParsedField) : Argument := ⟨lit "SQL_INT", lit "wrap_row", pk.name⟩

def Argument.spell (a : Argument) : Bytes := a.call ++ lit "(" ++ a.var ++ lit "." ++ a.member ++ lit ")"

/-- The words of an argument are words. -/
structure Argument.Plain (a : Argument) : Prop where
  call : ∀ c ∈ a.call, isWordByte c = true
  var : ∀ c ∈ a.var, isWordByte c = true
  member : ∀ c ∈ a.member, isWordByte c = true

theorem word_split {w : Bytes} {c : Byte} (hw : ∀ d ∈ w, isWordByte d = true)
    (hc : isWordByte c = false) (rest : Bytes) :
    (w ++ c :: rest).takeWhile isWordByte = w ∧ (w ++ c :: rest).dropWhile isWordByte = c :: rest := by
  have hneg : ¬ isWordByte c = true := by
    rw [hc]
    exact Bool.false_ne_true
  constructor
  · rw [List.takeWhile_append_of_pos hw, List.takeWhile_cons_of_neg hneg, List.append_nil]
  · rw [List.dropWhile_append_of_pos hw, List.dropWhile_cons_of_neg hneg]

theorem readArgument_spell {a : Argument} (h : a.Plain) (rest : Bytes) :
    readArgument (a.spell ++ rest) = some (a, rest) := by
  have htext : a.spell ++ rest
      = a.call ++ 0x28 :: (a.var ++ 0x2E :: (a.member ++ 0x29 :: rest)) := by
    simp only [Argument.spell, List.append_assoc]
    rfl
  obtain ⟨h1, h2⟩ := word_split h.call (by decide : isWordByte 0x28 = false)
    (a.var ++ 0x2E :: (a.member ++ 0x29 :: rest))
  obtain ⟨h3, h4⟩ := word_split h.var (by decide : isWordByte 0x2E = false)
    (a.member ++ 0x29 :: rest)
  obtain ⟨h5, h6⟩ := word_split h.member (by decide : isWordByte 0x29 = false) rest
  rw [htext, readArgument, h1, h2]
  dsimp only
  rw [h3, h4]
  dsimp only
  rw [h5, h6]
  dsimp only
  rw [if_pos ⟨rfl, rfl, rfl⟩]

theorem readMore_spell : ∀ (as : List Argument) (fuel : Nat), (∀ a ∈ as, a.Plain) →
    as.length < fuel →
      readMoreArguments fuel (as.flatMap (fun a => lit ", " ++ a.spell) ++ lit ")") = some as
  | [], fuel, _, hfuel => by
      obtain ⟨fuel, rfl⟩ := Nat.exists_eq_succ_of_ne_zero (Nat.ne_of_gt hfuel)
      rfl
  | a :: as, fuel, h, hfuel => by
      obtain ⟨fuel, rfl⟩ := Nat.exists_eq_succ_of_ne_zero (Nat.ne_of_gt (Nat.zero_lt_of_lt hfuel))
      rw [List.length_cons] at hfuel
      have ih := readMore_spell as fuel (fun b hb => h b (List.mem_cons_of_mem a hb)) (by omega)
      have htext : (a :: as).flatMap (fun a => lit ", " ++ a.spell) ++ lit ")"
          = 0x2C :: 0x20 :: (a.spell ++ (as.flatMap (fun a => lit ", " ++ a.spell) ++ lit ")")) := by
        rw [List.flatMap_cons, List.append_assoc, List.append_assoc]
        rfl
      have hclose : ¬ (0x2C :: 0x20 :: (a.spell ++ (as.flatMap (fun a => lit ", " ++ a.spell)
          ++ lit ")")) : Bytes) = lit ")" := fun heq => nomatch (List.cons.inj heq).1
      have hcomma : (0x2C :: 0x20 :: (a.spell ++ (as.flatMap (fun a => lit ", " ++ a.spell)
          ++ lit ")")) : Bytes).take 2 = lit ", " := rfl
      rw [htext, readMoreArguments, if_neg hclose, if_pos hcomma]
      show (readArgument (a.spell ++ _)).bind _ = _
      rw [readArgument_spell (h a List.mem_cons_self), Option.bind_some, ih]
      rfl

/-- **A list of arguments is read back.** -/
theorem readArguments_spell {a : Argument} {as : List Argument} (h : ∀ b ∈ a :: as, b.Plain) :
    readArguments (lit "SQL_ARGS(" ++ (a.spell ++ (as.flatMap (fun a => lit ", " ++ a.spell)
      ++ lit ")"))) = some (a :: as) := by
  have hnone : ¬ lit "SQL_ARGS(" ++ (a.spell ++ (as.flatMap (fun a => lit ", " ++ a.spell)
      ++ lit ")")) = lit "SQL_NOARGS" := by
    intro heq
    have htake : lit "SQL_A" = lit "SQL_N" := congrArg (List.take 5) heq
    exact absurd htake (by decide)
  have hopen : (lit "SQL_ARGS(" ++ (a.spell ++ (as.flatMap (fun a => lit ", " ++ a.spell)
      ++ lit ")"))).take 9 = lit "SQL_ARGS(" := rfl
  have hrest : (lit "SQL_ARGS(" ++ (a.spell ++ (as.flatMap (fun a => lit ", " ++ a.spell)
      ++ lit ")"))).drop 9 = a.spell ++ (as.flatMap (fun a => lit ", " ++ a.spell) ++ lit ")") := rfl
  have hfuel : as.length ≤ (as.flatMap fun a => lit ", " ++ a.spell).length := by
    clear hnone hopen hrest h
    induction as with
    | nil => exact Nat.le_refl 0
    | cons b as ih =>
        have htwo : (lit ", ").length = 2 := rfl
        rw [List.flatMap_cons, List.length_append, List.length_append, htwo, List.length_cons]
        omega
  rw [readArguments, if_neg hnone, if_pos hopen, hrest,
    readArgument_spell (h a List.mem_cons_self), Option.bind_some]
  dsimp only
  rw [readMore_spell as _ (fun b hb => h b (List.mem_cons_of_mem a hb))
    (by rw [List.length_append, List.length_append, List.length_append]; omega)]
  rfl

/-! ## In step -/

section Aligned

variable {t : ParsedType} {pk : ParsedField}

theorem argumentLoop_spell : ∀ fields : List ParsedField,
    argumentLoop false fields
      = (fields.map fieldArgument).flatMap fun a => lit ", " ++ a.spell
  | [] => rfl
  | f :: fields => by
      rw [argumentLoop, argumentLoop_spell fields, if_neg Bool.false_ne_true, List.map_cons,
        List.flatMap_cons]
      rfl

theorem argumentMacro_plain {f : ParsedField} (h : FieldShape f) :
    ∀ c ∈ argumentMacro f, isWordByte c = true := by
  rw [argumentMacro]
  split_ifs with hnull
  · rcases h.nullable hnull with h | h | h | h <;> rw [h] <;> decide
  · split <;> decide

theorem fieldArgument_plain {f : ParsedField} (h : FieldShape f) : (fieldArgument f).Plain where
  call := argumentMacro_plain h
  var := (by decide : ∀ c ∈ lit "wrap_row", isWordByte c = true)
  member := (plainName h.name).bytes

theorem keyArgument_plain (h : FieldShape pk) : (keyArgument pk).Plain where
  call := (by decide : ∀ c ∈ lit "SQL_INT", isWordByte c = true)
  var := (by decide : ∀ c ∈ lit "wrap_row", isWordByte c = true)
  member := (plainName h.name).bytes

/-- The key, and where it stands. -/
theorem otherFields_split (hpk : findPrimaryKey t = some pk)
    (hlength : t.fields.length ≤ GENERATOR_MAX_FIELDS) :
    (pk :: otherFields t).Perm t.fields := by
  have hmem := List.mem_of_find?_eq_some hpk
  obtain ⟨a, l₁, l₂, hbefore, ha, hsplit, herase⟩ := List.exists_of_eraseP hmem (List.find?_some hpk)
  have hfind : findPrimaryKey t = some a := by
    rw [findPrimaryKey, hsplit, List.find?_append, List.find?_eq_none.mpr hbefore, Option.none_or]
    exact List.find?_cons_of_pos ha
  obtain rfl := Option.some.inj (hpk.symm.trans hfind)
  rw [List.take_of_length_le hlength] at hsplit
  rw [otherFields, herase, hsplit]
  exact List.perm_middle.symm

theorem args_insert (hfields : ∀ f ∈ t.fields, FieldShape f)
    (hlength : t.fields.length ≤ GENERATOR_MAX_FIELDS) (hpk : findPrimaryKey t = some pk) :
    readArguments (emitCrudArgs t pk false) = some ((otherFields t).map fieldArgument) := by
  have hnil := otherFields_nil hlength hpk
  have hothers : ∀ f ∈ otherFields t, FieldShape f := fun f hf =>
    hfields f ((otherFields_split hpk hlength).subset (List.mem_cons_of_mem pk hf))
  rw [emitCrudArgs]
  cases hcase : otherFields t with
  | nil =>
      rw [if_pos ⟨hnil.mp hcase, rfl⟩]
      decide
  | cons f fields =>
      have hne : ¬ (t.fields.length = 1 ∧ false = false) := fun h => by
        rw [hnil.mpr h.1] at hcase
        cases hcase
      rw [hcase] at hothers
      have hplain : ∀ a ∈ fieldArgument f :: fields.map fieldArgument, a.Plain := by
        intro a ha
        obtain ⟨g, hg, rfl⟩ := List.mem_map.mp (show a ∈ (f :: fields).map fieldArgument from ha)
        exact fieldArgument_plain (hothers g hg)
      have hread := readArguments_spell hplain
      rw [if_neg hne, if_neg Bool.false_ne_true, argumentLoop, if_pos rfl, argumentLoop_spell,
        List.nil_append, List.append_nil, List.append_assoc, List.append_assoc]
      exact hread

theorem args_update (hfields : ∀ f ∈ t.fields, FieldShape f)
    (hlength : t.fields.length ≤ GENERATOR_MAX_FIELDS) (hpk : findPrimaryKey t = some pk) :
    readArguments (emitCrudArgs t pk true)
      = some ((otherFields t).map fieldArgument ++ [keyArgument pk]) := by
  have hothers : ∀ f ∈ otherFields t, FieldShape f := fun f hf =>
    hfields f ((otherFields_split hpk hlength).subset (List.mem_cons_of_mem pk hf))
  have hkey : FieldShape pk := hfields pk ((otherFields_split hpk hlength).subset List.mem_cons_self)
  have hspell : (keyArgument pk).spell = lit "SQL_INT(wrap_row." ++ (pk.name ++ lit ")") := rfl
  rw [emitCrudArgs, if_neg (fun h => nomatch h.2), if_pos rfl]
  cases hcase : otherFields t with
  | nil =>
      have hread := @readArguments_spell (keyArgument pk) []
        (List.forall_mem_singleton.mpr (keyArgument_plain hkey))
      rw [hspell] at hread
      simp only [argumentLoop, if_pos, List.append_assoc, List.nil_append, List.append_nil,
        List.flatMap_nil, List.map_nil] at hread ⊢
      exact hread
  | cons f fields =>
      rw [hcase] at hothers
      have hplain : ∀ a ∈ fieldArgument f :: (fields.map fieldArgument ++ [keyArgument pk]),
          a.Plain := by
        intro a ha
        rcases List.mem_append.mp (show a ∈ (f :: fields).map fieldArgument ++ [keyArgument pk] from ha)
          with ha | ha
        · obtain ⟨g, hg, rfl⟩ := List.mem_map.mp ha
          exact fieldArgument_plain (hothers g hg)
        · rw [List.mem_singleton.mp ha]
          exact keyArgument_plain hkey
      have hread := readArguments_spell hplain
      rw [if_neg (List.cons_ne_nil f fields), argumentLoop, if_pos rfl, argumentLoop_spell,
        List.nil_append]
      rw [List.flatMap_append, List.flatMap_singleton, hspell] at hread
      simp only [List.append_assoc] at hread ⊢
      exact hread

/-- What a compiler takes from an initializer and from an argument list: a text
    with its terminator, short enough for the database, and arguments that it has
    room for. -/
structure Emitted (initializer args sql : Bytes) (values : List Argument) : Prop where
  text : charArray initializer = some (sql ++ [0])
  terminated : (0 : Byte) ∉ sql
  short : sql.length < DbSqlite.DB_MAX_SQL
  args : readArguments args = some values
  few : values.length ≤ DbSqlite.DB_MAX_ARGS

theorem length_flatMap_le {α : Type} {f : α → Bytes} {k : Nat} : ∀ {l : List α},
    (∀ a ∈ l, (f a).length ≤ k) → (l.flatMap f).length ≤ k * l.length
  | [], _ => Nat.zero_le _
  | a :: l, h => by
      have ha := h a List.mem_cons_self
      have hl := @length_flatMap_le α f k l fun b hb => h b (List.mem_cons_of_mem a hb)
      rw [List.flatMap_cons, List.length_append, List.length_cons, Nat.mul_succ]
      omega

theorem quiet_insert {table key : Bytes} (ht : PlainName table) (hk : PlainName key)
    {cs : List Bytes} (hcs : ∀ c ∈ cs, PlainName c) : Quiet (insertText table cs key) := by
  have hopen : Quiet (lit "INSERT INTO ") := ⟨by decide, by decide, by decide, by decide⟩
  have hreturning : Quiet (lit " RETURNING ") := ⟨by decide, by decide, by decide, by decide⟩
  refine hopen.append (ht.quiet.append (Quiet.append ?_ (hreturning.append hk.quiet)))
  cases cs with
  | nil => exact ⟨by decide, by decide, by decide, by decide⟩
  | cons c cs =>
      have hleft : Quiet (lit " (") := ⟨by decide, by decide, by decide, by decide⟩
      have hcomma : Quiet (lit ", ") := ⟨by decide, by decide, by decide, by decide⟩
      have hvalues : Quiet (lit ") VALUES (?") := ⟨by decide, by decide, by decide, by decide⟩
      have hvalue : Quiet (lit ", ?") := ⟨by decide, by decide, by decide, by decide⟩
      have hright : Quiet (lit ")") := ⟨by decide, by decide, by decide, by decide⟩
      exact hleft.append ((hcs c List.mem_cons_self).quiet.append ((Quiet.flatMap fun d hd =>
        hcomma.append (hcs d (List.mem_cons_of_mem c hd)).quiet).append (hvalues.append
          ((Quiet.flatMap fun _ _ => hvalue).append hright))))

theorem quiet_update {table key c : Bytes} (ht : PlainName table) (hk : PlainName key)
    {cs : List Bytes} (hcs : ∀ d ∈ c :: cs, PlainName d) : Quiet (updateText table c cs key) := by
  have hopen : Quiet (lit "UPDATE ") := ⟨by decide, by decide, by decide, by decide⟩
  have hset : Quiet (lit " SET ") := ⟨by decide, by decide, by decide, by decide⟩
  have hvalue : Quiet (lit " = ?") := ⟨by decide, by decide, by decide, by decide⟩
  have hcomma : Quiet (lit ", ") := ⟨by decide, by decide, by decide, by decide⟩
  have hwhere : Quiet (lit " WHERE ") := ⟨by decide, by decide, by decide, by decide⟩
  exact hopen.append (ht.quiet.append (hset.append ((hcs c List.mem_cons_self).quiet.append
    (hvalue.append ((Quiet.flatMap fun d hd => hcomma.append
      ((hcs d (List.mem_cons_of_mem c hd)).quiet.append hvalue)).append
        (hwhere.append (hk.quiet.append hvalue)))))))

theorem PlainName.quoted_le {name : Bytes} (h : PlainName name) : (quoted name).length ≤ 65 := by
  have hshort : name.length < 64 := h.short
  rw [quoted_length]
  omega

theorem insert_length {table key : Bytes} (ht : PlainName table) (hk : PlainName key)
    {cs : List Bytes} (hcs : ∀ c ∈ cs, PlainName c) (hfew : cs.length ≤ 63) :
    (insertText table cs key).length < DbSqlite.DB_MAX_SQL := by
  have htable := ht.quoted_le
  have hkey := hk.quoted_le
  have hconst : (lit "INSERT INTO ").length = 12 ∧ (lit " RETURNING ").length = 11
      ∧ (lit " DEFAULT VALUES").length = 15 ∧ (lit " (").length = 2
      ∧ (lit ") VALUES (?").length = 11 ∧ (lit ")").length = 1 := by decide
  obtain ⟨h1, h2, h3, h4, h5, h6⟩ := hconst
  have hmax : DbSqlite.DB_MAX_SQL = 8192 := rfl
  cases cs with
  | nil =>
      simp only [insertText, List.length_append]
      omega
  | cons c cs =>
      have hfirst := (hcs c List.mem_cons_self).quoted_le
      have hcolumns : (cs.flatMap fun c => lit ", " ++ quoted c).length ≤ 67 * cs.length := by
        refine length_flatMap_le fun d hd => ?_
        have hd := (hcs d (List.mem_cons_of_mem c hd)).quoted_le
        have hcomma : (lit ", ").length = 2 := rfl
        rw [List.length_append]
        omega
      have hvalues : (cs.flatMap fun _ => lit ", ?").length ≤ 3 * cs.length :=
        length_flatMap_le fun _ _ => (by decide : (lit ", ?").length ≤ 3)
      rw [List.length_cons] at hfew
      simp only [insertText, List.length_append]
      omega

theorem update_length {table key c : Bytes} (ht : PlainName table) (hk : PlainName key)
    {cs : List Bytes} (hcs : ∀ d ∈ c :: cs, PlainName d) (hfew : cs.length ≤ 62) :
    (updateText table c cs key).length < DbSqlite.DB_MAX_SQL := by
  have htable := ht.quoted_le
  have hkey := hk.quoted_le
  have hfirst := (hcs c List.mem_cons_self).quoted_le
  have hconst : (lit "UPDATE ").length = 7 ∧ (lit " SET ").length = 5 ∧ (lit " = ?").length = 4
      ∧ (lit " WHERE ").length = 7 := by decide
  obtain ⟨h1, h2, h3, h4⟩ := hconst
  have hmax : DbSqlite.DB_MAX_SQL = 8192 := rfl
  have hsets : (cs.flatMap fun c => lit ", " ++ (quoted c ++ lit " = ?")).length
      ≤ 71 * cs.length := by
    refine length_flatMap_le fun d hd => ?_
    have hd := (hcs d (List.mem_cons_of_mem c hd)).quoted_le
    have hcomma : (lit ", ").length = 2 := rfl
    rw [List.length_append, List.length_append]
    omega
  simp only [updateText, List.length_append]
  omega

end Aligned

/-- **Columns, placeholders and arguments are in step**, in either spelling: the
    `INSERT` has a column for each field but the key and takes the field for it,
    and the `UPDATE` sets the same columns from the same fields and takes the key
    for its last value. -/
theorem crud_aligned (strtold : Strtold) (files : List File)
    (h : (runGenerator strtold files).errors = []) {t : ParsedType}
    (ht : t ∈ (runGenerator strtold files).types) {pk : ParsedField}
    (hpk : findPrimaryKey t = some pk) :
    (pk :: otherFields t).Perm t.fields
      ∧ (∃ sql, (∀ bytes, Emitted (emitSql bytes (insertFragments t pk)) (emitCrudArgs t pk false)
            sql ((otherFields t).map fieldArgument))
          ∧ readText sql = some (.insert t.name ((otherFields t).map (·.name)) pk.name))
      ∧ (t.fields.length ≠ 1 →
        ∃ sql, (∀ bytes, Emitted (emitSql bytes (updateFragments t pk)) (emitCrudArgs t pk true)
            sql ((otherFields t).map fieldArgument ++ [keyArgument pk]))
          ∧ readText sql = some (.update t.name ((otherFields t).map (·.name)) pk.name)) := by
  obtain ⟨hname, hlength, -, -, hfields⟩ := (typesAccepted strtold files h).type t ht
  have hperm := otherFields_split hpk hlength
  have htable := plainName hname
  have hkey := plainName (hfields pk (hperm.subset List.mem_cons_self)).name
  have hcolumns : ∀ c ∈ (otherFields t).map (·.name), PlainName c := by
    intro c hc
    obtain ⟨f, hf, rfl⟩ := List.mem_map.mp hc
    exact plainName (hfields f (hperm.subset (List.mem_cons_of_mem pk hf))).name
  have hquote : ∀ {name : Bytes}, PlainName name → SqlText.QUOTE ∉ name :=
    fun hn => hn.not_mem (by decide)
  have hfew : (otherFields t).length ≤ 63 := by
    have hsame := hperm.length_eq
    have hmax : t.fields.length ≤ 64 := hlength
    rw [List.length_cons] at hsame
    omega
  refine ⟨hperm, ?_, fun hmany => ?_⟩
  · have hquiet := quiet_insert htable hkey hcolumns
    have hshort := insert_length htable hkey hcolumns (by rw [List.length_map]; exact hfew)
    rw [← insert_flatten hlength hpk] at hquiet hshort
    refine ⟨_, fun bytes => ⟨emitSql_text bytes hquiet.feed hquiet.calm, hquiet.nul, hshort,
      args_insert hfields hlength hpk, ?_⟩, ?_⟩
    · rw [List.length_map]
      exact Nat.le_succ_of_le hfew
    · rw [insert_flatten hlength hpk]
      exact readText_insert (hquote htable) (hquote hkey) fun c hc => hquote (hcolumns c hc)
  · obtain ⟨f, fields, hothers⟩ :=
      List.exists_cons_of_ne_nil fun hnil => hmany ((otherFields_nil hlength hpk).mp hnil)
    have hargs := args_update hfields hlength hpk
    rw [hothers] at hcolumns hfew hargs ⊢
    rw [List.length_cons] at hfew
    have hquiet := quiet_update htable hkey hcolumns
    have hshort := update_length htable hkey hcolumns (by rw [List.length_map]; omega)
    rw [← @update_flatten t pk f fields hothers] at hquiet hshort
    refine ⟨_, fun bytes => ⟨emitSql_text bytes hquiet.feed hquiet.calm, hquiet.nul, hshort,
      hargs, ?_⟩, ?_⟩
    · have hmax : DbSqlite.DB_MAX_ARGS = 64 := rfl
      rw [List.length_append, List.length_map, List.length_cons, List.length_singleton]
      omega
    · rw [update_flatten hothers]
      exact readText_update (hquote htable) (hquote hkey) fun c hc => hquote (hcolumns c hc)

/-- A table with a title and stars. -/
def noteFile : File := (lit "note.c",
  lit "$table(Note)\n\x7b\n$id int id;\n$not_null str title;\n$nullable(int) stars;\n\x7d;\n")

def noteKey : ParsedField where
  name := lit "id"
  cType := lit "int"
  kind := some .int
  flags := { id := true }

def noteType : ParsedType where
  name := lit "Note"
  line := 1
  fileIndex := 0
  jsonOnly := false
  fields := [noteKey,
    { name := lit "title", cType := lit "str", kind := some .str, flags := { notNull := true } },
    { name := lit "stars", cType := lit "int", kind := some .int, flags := { nullable := true } }]

theorem note_model : (runGenerator GeneratorAuth.noNumber [noteFile]).errors = []
    ∧ (runGenerator GeneratorAuth.noNumber [noteFile]).types = [noteType] := by
  decide +kernel

theorem crud_aligned_note :
    ∃ sql, (∀ bytes, Emitted
        (emitSql bytes (updateFragments noteType noteKey)) (emitCrudArgs noteType noteKey true)
        sql [⟨lit "SQL_TEXT", lit "wrap_row", lit "title"⟩,
          ⟨lit "SQL_OPTION_int", lit "wrap_row", lit "stars"⟩,
          ⟨lit "SQL_INT", lit "wrap_row", lit "id"⟩])
      ∧ readText sql = some (.update (lit "Note") [lit "title", lit "stars"] (lit "id")) := by
  have hmem : noteType ∈ (runGenerator GeneratorAuth.noNumber [noteFile]).types := by
    rw [note_model.2]
    exact List.mem_singleton.mpr rfl
  exact (crud_aligned GeneratorAuth.noNumber [noteFile] note_model.1 hmem rfl).2.2 (by decide)

end CrudEmit
